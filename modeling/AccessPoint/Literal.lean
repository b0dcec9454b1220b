/-
A ClassAd library whose only expressions are literals. It instantiates `ClassAdLib`, so the assumptions of the model are
satisfiable, and it makes every definition of the model executable: the concrete runs below the theorems are runs of
this instance.
-/
import AccessPoint.ClassAd

namespace AccessPoint

/-- the spelling of the attributes the schedd names, lower case -/
def attrNames : List (String × Attr) :=
  [("owner", .owner), ("user", .user), ("osuser", .osUser), ("clusterid", .clusterId), ("procid", .procId),
    ("jobuniverse", .jobUniverse), ("mytype", .myType), ("targettype", .targetType), ("acctgroup", .acctGroup),
    ("acctgroupuser", .acctGroupUser), ("accountinggroup", .accountingGroup), ("globaljobid", .globalJobId),
    ("qdate", .qDate), ("x509userproxysubject", .x509UserProxySubject), ("x509userproxyemail", .x509UserProxyEmail),
    ("x509userproxyvoname", .x509UserProxyVOName), ("x509userproxyfirstfqan", .x509UserProxyFirstFQAN),
    ("x509userproxyfqan", .x509UserProxyFQAN), ("totalsubmitprocs", .totalSubmitProcs),
    ("authtokensubject", .authTokenSubject), ("authtokenissuer", .authTokenIssuer),
    ("authtokengroups", .authTokenGroups), ("authtokenid", .authTokenId), ("authtokenscopes", .authTokenScopes),
    ("authtokenproject", .authTokenProject), ("jobstatus", .jobStatus), ("lastjobstatus", .lastJobStatus),
    ("enteredcurrentstatus", .enteredCurrentStatus), ("holdreason", .holdReason), ("holdreasoncode", .holdReasonCode),
    ("holdreasonsubcode", .holdReasonSubCode), ("numholds", .numHolds), ("jobstatusonrelease", .jobStatusOnRelease),
    ("releasereason", .releaseReason), ("removereason", .removeReason), ("numshadowexceptions", .numShadowExceptions),
    ("vacatereason", .vacateReason), ("vacatereasoncode", .vacateReasonCode),
    ("vacatereasonsubcode", .vacateReasonSubCode), ("completiondate", .completionDate), ("remotehost", .remoteHost),
    ("lastremotehost", .lastRemoteHost), ("claimid", .claimId), ("startdipaddr", .startdIpAddr),
    ("lastjobleaserenewal", .lastJobLeaseRenewal), ("jobleaseduration", .jobLeaseDuration),
    ("jobcurrentstartdate", .jobCurrentStartDate), ("jobstartdate", .jobStartDate), ("numjobstarts", .numJobStarts),
    ("numshadowstarts", .numShadowStarts), ("jobruncount", .jobRunCount), ("shadowbday", .shadowBday),
    ("exitcode", .exitCode), ("exitbysignal", .exitBySignal), ("exitstatus", .exitStatus), ("exitsignal", .exitSignal),
    ("remotewallclocktime", .remoteWallClockTime), ("numjobcompletions", .numJobCompletions),
    ("currenttime", .currentTime), ("periodichold", .periodicHold), ("periodicholdreason", .periodicHoldReason),
    ("periodicholdsubcode", .periodicHoldSubCode), ("periodicrelease", .periodicRelease),
    ("periodicremove", .periodicRemove), ("onexithold", .onExitHold), ("onexitholdreason", .onExitHoldReason),
    ("onexitholdsubcode", .onExitHoldSubCode), ("onexitremove", .onExitRemove),
    ("jobmaterializedigestfile", .jobMaterializeDigestFile), ("jobmaterializeitemsfile", .jobMaterializeItemsFile),
    ("jobmaterializelimit", .jobMaterializeLimit), ("jobmaterializemaxidle", .jobMaterializeMaxIdle),
    ("jobmaterializenextprocid", .jobMaterializeNextProcId), ("jobmaterializenextrow", .jobMaterializeNextRow),
    ("jobmaterializepaused", .jobMaterializePaused), ("jobmaterializedate", .jobMaterializeDate),
    ("jobmaterializeitemcount", .jobMaterializeItemCount), ("cmd", .cmd), ("args", .args), ("arguments", .arguments),
    ("env", .env), ("environment", .environment), ("out", .out), ("err", .err), ("in", .inFile), ("userlog", .userLog),
    ("iwd", .iwd), ("transferinput", .transferInput), ("transferoutput", .transferOutput),
    ("transferoutputremaps", .transferOutputRemaps), ("requestcpus", .requestCpus), ("requestmemory", .requestMemory),
    ("requestdisk", .requestDisk), ("requestgpus", .requestGpus), ("jobprio", .jobPrio),
    ("jobbatchname", .jobBatchName), ("stageinstart", .stageInStart), ("stageinfinish", .stageInFinish),
    ("stageoutfinish", .stageOutFinish), ("spooledoutputfiles", .spooledOutputFiles),
    ("transferexecutable", .transferExecutable), ("transferin", .transferIn), ("lastholdreason", .lastHoldReason),
    ("lastholdreasoncode", .lastHoldReasonCode), ("lastholdreasonsubcode", .lastHoldReasonSubCode),
    ("lastsuspensiontime", .lastSuspensionTime), ("submit_iwd", .submitIwd),
    ("submit_transferoutputremaps", .submitTransferOutputRemaps), ("submit_cmd", .submitCmd), ("submit_in", .submitIn),
    ("submit_userlog", .submitUserLog), ("submit_transferinput", .submitTransferInput)]

/-- the attribute a name denotes, case ignored -/
def attrOfName (name : String) : Attr :=
  let l := name.toLower
  (attrNames.lookup l).getD (.other l)

/-- a decimal numeral -/
def digitsValue (cs : List Char) : Option ℤ :=
  if cs ≠ [] ∧ cs.all Char.isDigit then some (cs.foldl (fun n c => 10 * n + (c.toNat - '0'.toNat : ℕ)) 0) else none

/-- a quoted string, a numeral, true or false -/
def parseLiteral (text : String) : Except String Value :=
  match text.toList with
  | '"' :: rest =>
    if rest.getLast? = some '"' then .ok (.str (String.ofList rest.dropLast)) else .error "unterminated string"
  | cs =>
    if text = "true" then .ok (.bool true)
    else if text = "false" then .ok (.bool false)
    else
      match digitsValue cs with
      | some n => .ok (.int n)
      | none => .error "not a literal"

/-- a quoted string reads back as itself -/
theorem parseLiteral_quote (s : String) : parseLiteral ("\"" ++ s ++ "\"") = .ok (.str s) := by
  have hcs : ("\"" ++ s ++ "\"").toList = '"' :: (s.toList ++ ['"']) := by simp
  unfold parseLiteral
  rw [hcs]
  simp

def renderLiteral : Value → String
  | .undefined => "undefined"
  | .error => "error"
  | .bool b => if b then "true" else "false"
  | .int i => toString i
  | .real _ => "real"
  | .str s => "\"" ++ s ++ "\""
  | .other => "[]"

def trimSpaces (s : String) : String :=
  String.ofList ((s.toList.dropWhile Char.isWhitespace).reverse.dropWhile Char.isWhitespace).reverse

instance : ClassAdLib Value where
  canon := attrOfName
  lit := id
  parseExpr := parseLiteral
  render := renderLiteral
  eval := fun _ v => v
  settable := fun _ _ => true
  toLower := String.toLower
  equalFold := fun a b => a.toLower = b.toLower
  trimSpace := trimSpaces
  quote := fun s => "\"" ++ s ++ "\""
  eval_lit := fun _ _ => rfl
  canon_digestFile := by decide +kernel
  canon_itemsFile := by decide +kernel
  canon_limit := by decide +kernel
  canon_nextProcId := by decide +kernel
  canon_nextRow := by decide +kernel
  canon_paused := by decide +kernel
  canon_date := by decide +kernel
  canon_itemCount := by decide +kernel

end AccessPoint

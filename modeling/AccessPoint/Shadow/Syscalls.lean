/-
The remote syscalls of the starter (shadow/syscalls.go, and `Run`, `serve` and the accessors of shadow/shadow.go).

A starter sends one request after the other over the connection of the activation; each is one message, a syscall number
with its arguments and the mark of its end, and each but `ulog` is answered by one message. The shadow reads a request
to its end before it acts on it, and what it leaves of one is what it finds of the next. The connection is what still
comes over it and a number of writes that still succeed: it may fail anywhere, and a cancelled context fails the read it
is waiting in.

- `readRequest`, `answer`, `serveOne`: one request.
- `serve`, `run`: the loop until job_exit or an error, and what follows it.
- `fullyRead`: the requests that are read to their end, from where the connection fails.
- `Session.Sound`: what the loop keeps, from any state.
- `run_protocol`: replies, the result and the claim at the end of any run.
-/
import AccessPoint.Shadow
import AccessPoint.Core.KeyMap
import AccessPoint.Literal

namespace AccessPoint.Shadow

open ClassAdLib List

variable {E : Type}

/-! ## Messages -/

/-- what a message holds; bytes are what no syscall reads -/
inductive Item (E : Type) where
  | int (i : ℤ)
  | str (s : String)
  | ad (a : Ad E)
  | byte (b : UInt8)

/-- what comes over the connection: the items of a message, and its end -/
inductive Token (E : Type) where
  | item (i : Item E)
  | eom

structure Request (E : Type) where
  op : ℤ
  args : List (Item E)

def Request.tokens (r : Request E) : List (Token E) := .item (.int r.op) :: (r.args.map .item ++ [.eom])

/-- what a starter sends -/
def wire (reqs : List (Request E)) : List (Token E) := reqs.flatMap Request.tokens

/-- the standard part of a reply and what follows it -/
structure Reply (E : Type) where
  rval : ℤ
  terrno : Option ℤ
  payload : List (Item E)

/-- the connection: what comes before it fails, the writes that succeed, and the error it then gives -/
structure Line (E : Type) where
  incoming : List (Token E)
  writes : ℕ
  err : String
  /-- that error is an `io.EOF` to `errors.Is`, as the one of a read at the end of a message is -/
  eof : Bool

/-- a reader of messages -/
abbrev Recv (E α : Type) := StateT (Line E) (Except String) α

/-- the next item of the message; `what` names it in the error -/
def take {α : Type} (what : String) (pick : Item E → Option α) : Recv E α := fun line =>
  match line.incoming with
  | .item i :: rest =>
    match pick i with
    | some a => .ok (a, { line with incoming := rest })
    | none => .error (what ++ ": malformed")
  | .eom :: _ => .error (what ++ ": EOF")
  | [] => .error (what ++ ": " ++ line.err)

def Item.int? : Item E → Option ℤ
  | .int i => some i
  | _ => none

/-- what an argument is read as -/
inductive Kind where
  | int
  | str
  | ad
deriving DecidableEq, Repr

def Item.kind : Item E → Option Kind
  | .int _ => some .int
  | .str _ => some .str
  | .ad _ => some .ad
  | .byte _ => none

/-- one argument after the other; each comes with its name -/
def readArgs : List (Kind × String) → Recv E (List (Item E))
  | [] => pure []
  | (kind, what) :: more => do
    let arg ← take what fun i => if i.kind = some kind then some i else none
    let args ← readArgs more
    pure (arg :: args)

/-- the loop of `drain`: any `io.EOF` is the end of the message to it -/
def drainFrom (line : Line E) : List (Token E) → Except String (List (Token E))
  | .item _ :: rest => drainFrom line rest
  | .eom :: rest => .ok rest
  | [] => if line.eof then .ok [] else .error line.err

def drain : Recv E Unit := fun line =>
  (drainFrom line line.incoming).map fun rest => ((), { line with incoming := rest })

/-! ## Requests -/

def opDprintfStats : ℤ := -84
def opJobTermination : ℤ := -82
def opRegisterJobInfo : ℤ := -81
def opBeginExecution : ℤ := -78
def opRegisterStarterInfo : ℤ := -77
def opGetUserInfo : ℤ := -76
def opJobExit : ℤ := -65
def opGetJobInfo : ℤ := -63
def opUlog : ℤ := 284
def opGetJobAttr : ℤ := 285
def opSetJobAttr : ℤ := 286
def opGetSecSessionInfo : ℤ := 288
def opEventNotification : ℤ := 304
def opRequestGuidance : ℤ := 305

/-- a syscall with its arguments -/
inductive Syscall (E : Type) where
  | registerStarterInfo (ad : Ad E)
  | getJobInfo
  | getUserInfo
  | beginExecution
  | registerJobInfo (ad : Ad E)
  | jobExit (status reason : ℤ) (ad : Ad E)
  | jobTermination (ad : Ad E)
  | ulog (ad : Ad E)
  | dprintfStats (msg : String)
  | eventNotification (ad : Ad E)
  | requestGuidance (req : Ad E)
  | getSecSessionInfo (reconnect filetrans : String)
  | getJobAttr (attr : String)
  | setJobAttr (expr attr : String)
  | unknown (op : ℤ)

/-- the arguments of a syscall, in the order they are read; those of an unknown one are left to `drain` -/
def arguments (op : ℤ) : List (Kind × String) :=
  if op = opRegisterStarterInfo then [(.ad, "shadow: register_starter_info ad")]
  else if op = opRegisterJobInfo then [(.ad, "shadow: register_job_info ad")]
  else if op = opJobExit then
    [(.int, "shadow: job_exit status"), (.int, "shadow: job_exit reason"), (.ad, "shadow: job_exit ad")]
  else if op = opJobTermination then [(.ad, "shadow: job_termination ad")]
  else if op = opUlog then [(.ad, "shadow: ulog ad")]
  else if op = opDprintfStats then [(.str, "shadow: dprintf_stats message")]
  else if op = opEventNotification then [(.ad, "shadow: event_notification ad")]
  else if op = opRequestGuidance then [(.ad, "shadow: request_guidance ad")]
  else if op = opGetSecSessionInfo then
    [(.str, "shadow: get_sec_session_info arg 1"), (.str, "shadow: get_sec_session_info arg 2")]
  else if op = opGetJobAttr then [(.str, "shadow: get_job_attr name")]
  -- the expression comes first
  else if op = opSetJobAttr then [(.str, "shadow: set_job_attr expr"), (.str, "shadow: set_job_attr name")]
  else []

/-- the syscall of a number, with the arguments read for it -/
def Syscall.of (op : ℤ) : List (Item E) → Syscall E
  | [] =>
    if op = opGetJobInfo then .getJobInfo
    else if op = opGetUserInfo then .getUserInfo
    else if op = opBeginExecution then .beginExecution
    else .unknown op
  | [.ad ad] =>
    if op = opRegisterStarterInfo then .registerStarterInfo ad
    else if op = opRegisterJobInfo then .registerJobInfo ad
    else if op = opJobTermination then .jobTermination ad
    else if op = opUlog then .ulog ad
    else if op = opEventNotification then .eventNotification ad
    else if op = opRequestGuidance then .requestGuidance ad
    else .unknown op
  | [.str s] =>
    if op = opDprintfStats then .dprintfStats s else if op = opGetJobAttr then .getJobAttr s else .unknown op
  | [.str s, .str s'] =>
    if op = opGetSecSessionInfo then .getSecSessionInfo s s'
    else if op = opSetJobAttr then .setJobAttr s s'
    else .unknown op
  | [.int status, .int reason, .ad ad] => if op = opJobExit then .jobExit status reason ad else .unknown op
  | _ => .unknown op

/-- the reading part of `serveOne` -/
def readRequest : Recv E (Syscall E) := do
  let op ← take "shadow: reading syscall number" Item.int?
  let args ← readArgs (arguments op)
  drain
  pure (.of op args)

/-! ## Answers -/

/-- `Result` -/
structure Result (E : Type) where
  exitStatus : ℤ := 0
  reason : ℤ := 0
  exitAd : Option (Ad E) := none
  finalAd : Option (Ad E) := none
  updateAd : Option (Ad E) := none

/-- what the serve loop writes of a `Shadow` -/
structure State (E : Type) where
  starterAd : Option (Ad E) := none
  updateAd : Option (Ad E) := none
  jobAttrs : KeyMap String String := ∅
  executing : Bool := false
  gotExit : Bool := false
  result : Result E := {}

/-- the material of one session -/
structure SessionKey where
  id : String
  info : String
  key : String
deriving DecidableEq, Repr

/-- what the serve loop reads of a `Shadow` -/
structure Config (E : Type) where
  jobAd : Ad E
  shadowAddr : String
  shadowVersion : String
  uidDomain : String
  /-- `TransferKey` and `TransferSocket`, when the shadow transfers files -/
  transfer : Option (String × String)
  /-- the hook; none when it fails -/
  prepareJobAd : Ad E → Option (Ad E)
  /-- the reconnect and the file-transfer session, when the claim carries one -/
  sessions : Option (SessionKey × SessionKey)
  uid : ℤ
  gid : ℤ

/-- `Event` -/
inductive Event (E : Type) where
  | starterInfo (ad : Ad E)
  | getJobInfo (ad : Ad E)
  | beginExecution
  | jobUpdate (ad : Ad E)
  | jobExit (ad : Ad E)
  | jobTermination (ad : Ad E)
  | ulog (ad : Ad E)
  | notification (ad : Ad E)
  | guidanceRequest (ad : Ad E)
  | setJobAttr (attr expr : String)
  | unknownOp (op : ℤ)

def errnoNoSys : ℤ := 38

/-- `replyInt` -/
def replyInt (rval terrno : ℤ) : Reply E := ⟨rval, if rval < 0 then some terrno else none, []⟩

/-- a success with its payload -/
def replyWith (payload : List (Item E)) : Reply E := ⟨0, none, payload⟩

section

variable [ClassAdLib E]

/-- `ad.Set` of a string, unless it is empty -/
def publish (name value : String) (ad : Ad E) : Ad E := if value ≠ "" then ad.setStr (canon E name) value else ad

def buildJobInfoAd (cfg : Config E) : Option (Ad E) :=
  let ad := publish "ShadowIpAddr" cfg.shadowAddr cfg.jobAd
  let ad := publish "ShadowVersion" cfg.shadowVersion ad
  let ad := publish "UidDomain" cfg.uidDomain ad
  let ad := match cfg.transfer with
    | some (key, socket) => (ad.setStr (canon E "TransferKey") key).setStr (canon E "TransferSocket") socket
    | none => ad
  cfg.prepareJobAd ad

/-- what the starter has set wins over the job ad -/
def lookupJobAttr (cfg : Config E) (st : State E) (name : String) : Option String :=
  match st.jobAttrs.lookup name with
  | some expr => some expr
  | none => (cfg.jobAd (canon E name)).map render

/-- an update with a `JobState` means that the job has begun -/
def setUpdateAd (st : State E) (ad : Ad E) : State E :=
  { st with
    updateAd := some ad
    result := { st.result with updateAd := some ad }
    executing := st.executing || (ad (canon E "JobState")).isSome }

omit [ClassAdLib E] in
def recordExit (st : State E) (status reason : ℤ) (ad : Ad E) : State E :=
  { st with gotExit := true, result := { st.result with exitStatus := status, reason := reason, exitAd := some ad } }

/-- the state after a request, the events it gives rise to, and the reply -/
structure Answer (E : Type) where
  st : State E
  events : List (Event E)
  reply : Option (Reply E)

/-- the acting part of `serveOne` -/
def answer (cfg : Config E) (st : State E) : Syscall E → Answer E
  | .registerStarterInfo ad => ⟨{ st with starterAd := some ad }, [.starterInfo ad], some (replyInt 0 0)⟩
  | .getJobInfo =>
    match buildJobInfoAd cfg with
    | none => ⟨st, [], some (replyInt (-1) errnoNoSys)⟩
    | some ad => ⟨st, [.getJobInfo ad], some (replyWith [.ad ad])⟩
  | .getUserInfo =>
    let ad := ((Ad.empty : Ad E).setInt (canon E "Uid") cfg.uid).setInt (canon E "Gid") cfg.gid
    ⟨st, [], some (replyWith [.ad ad])⟩
  | .beginExecution => ⟨{ st with executing := true }, [.beginExecution], some (replyInt 0 0)⟩
  | .registerJobInfo ad => ⟨setUpdateAd st ad, [.jobUpdate ad], some (replyInt 0 0)⟩
  | .jobExit status reason ad => ⟨recordExit st status (normalizeReason reason) ad, [.jobExit ad], some (replyInt 0 0)⟩
  | .jobTermination ad =>
    ⟨{ st with result := { st.result with finalAd := some ad } }, [.jobTermination ad], some (replyInt 0 0)⟩
  | .ulog ad => ⟨st, [.ulog ad], none⟩
  | .dprintfStats _ => ⟨st, [], some (replyWith [])⟩
  | .eventNotification ad => ⟨st, [.notification ad], some (replyWith [])⟩
  | .requestGuidance req =>
    ⟨st, [.guidanceRequest req], some (replyWith [.ad ((Ad.empty : Ad E).setStr (canon E "Command") "CarryOn")])⟩
  | .getSecSessionInfo _ _ =>
    match cfg.sessions with
    | none => ⟨st, [], some (replyInt (-1) errnoNoSys)⟩
    | some (rc, ft) => ⟨st, [], some (replyWith ([rc.id, rc.info, rc.key, ft.id, ft.info, ft.key].map .str))⟩
  | .getJobAttr attr =>
    match lookupJobAttr cfg st attr with
    | none => ⟨st, [], some (replyInt (-1) 2)⟩
    | some expr => ⟨st, [], some (replyWith [.str expr])⟩
  | .setJobAttr expr attr =>
    ⟨{ st with jobAttrs := st.jobAttrs.insert attr expr }, [.setJobAttr attr expr], some (replyInt 0 0)⟩
  | .unknown op => ⟨st, [.unknownOp op], some (replyInt (-1) errnoNoSys)⟩

/-! ## The loop -/

omit [ClassAdLib E] in
def Syscall.isExit : Syscall E → Bool
  | .jobExit _ _ _ => true
  | _ => false

/-- a syscall that gets no reply -/
def Syscall.isUlog : Syscall E → Bool
  | .ulog _ => true
  | _ => false

/-- one turn: the syscall, if a request was read to its end, and the replies sent -/
structure Exchange (E : Type) where
  call : Option (Syscall E)
  replies : List (Reply E)

/-- one turn of the loop; `out` is what `serveOne` returns -/
structure Turn (E : Type) where
  st : State E
  line : Line E
  exchange : Exchange E
  events : List (Event E)
  out : Except String Bool

/-- the acting part, with the reply sent -/
def respond (cfg : Config E) (st : State E) (line : Line E) (call : Syscall E) : Turn E :=
  let a := answer cfg st call
  match a.reply, line.writes with
  | none, _ => ⟨a.st, line, ⟨some call, []⟩, a.events, .ok false⟩
  | some _, 0 =>
    -- the starter may be gone when it has sent job_exit; a lost reply is no error then
    ⟨a.st, line, ⟨some call, []⟩, a.events, if call.isExit then .ok true else .error line.err⟩
  | some reply, n + 1 => ⟨a.st, { line with writes := n }, ⟨some call, [reply]⟩, a.events, .ok call.isExit⟩

def serveOne (cfg : Config E) (st : State E) (line : Line E) : Turn E :=
  match readRequest.run line with
  | .error err => ⟨st, line, ⟨none, []⟩, [], .error err⟩
  | .ok (call, line') => respond cfg st line' call

section Readers

omit [ClassAdLib E]

variable {α β : Type} {line line' : Line E}

theorem bind_ok {x : Recv E α} {f : α → Recv E β} {b : β} (h : (x >>= f).run line = .ok (b, line')) :
    ∃ a mid, x.run line = .ok (a, mid) ∧ (f a).run mid = .ok (b, line') := by
  rw [StateT.run_bind] at h
  cases hx : x.run line with
  | error =>
    rw [hx] at h
    cases h
  | ok r =>
    rw [hx] at h
    exact ⟨r.1, r.2, rfl, h⟩

theorem take_shorter {what : String} {pick : Item E → Option α} {a : α}
    (h : (take what pick).run line = .ok (a, line')) : line'.incoming.length < line.incoming.length := by
  simp only [take, StateT.run] at h
  split at h
  · next i rest hin =>
    split at h
    · cases h
      rw [hin]
      exact Nat.lt_succ_self _
    · cases h
  all_goals cases h

theorem readArgs_shorter {asked : List (Kind × String)} {args : List (Item E)}
    (h : (readArgs asked).run line = .ok (args, line')) : line'.incoming.length ≤ line.incoming.length := by
  induction asked generalizing line args with
  | nil =>
    cases h
    exact le_rfl
  | cons a asked ih =>
    obtain ⟨_, _, harg, h⟩ := bind_ok h
    obtain ⟨_, _, hmore, h⟩ := bind_ok h
    cases h
    exact (ih hmore).trans (take_shorter harg).le

theorem drainFrom_shorter {toks rest : List (Token E)} (h : drainFrom line toks = .ok rest) :
    rest.length ≤ toks.length := by
  induction toks with
  | nil =>
    unfold drainFrom at h
    split at h
    · cases h
      exact le_rfl
    · cases h
  | cons t toks ih =>
    cases t with
    | item => exact (ih h).trans (Nat.le_succ _)
    | eom =>
      cases h
      exact Nat.le_succ _

/-- a request that was read has taken something off the connection -/
theorem readRequest_shorter {call : Syscall E} (h : readRequest.run line = .ok (call, line')) :
    line'.incoming.length < line.incoming.length := by
  obtain ⟨_, _, hop, h⟩ := bind_ok h
  obtain ⟨_, mid', hargs, h⟩ := bind_ok h
  obtain ⟨_, _, hdrain, h⟩ := bind_ok h
  cases h
  refine lt_of_le_of_lt ((?_ : line'.incoming.length ≤ mid'.incoming.length).trans (readArgs_shorter hargs))
    (take_shorter hop)
  simp only [drain, StateT.run] at hdrain
  cases hd : drainFrom mid' mid'.incoming with
  | error =>
    rw [hd] at hdrain
    cases hdrain
  | ok =>
    rw [hd] at hdrain
    cases hdrain
    exact drainFrom_shorter hd

end Readers

theorem serveOne_shorter {cfg : Config E} {st : State E} {line : Line E} {done : Bool}
    (h : (serveOne cfg st line).out = .ok done) :
    (serveOne cfg st line).line.incoming.length < line.incoming.length := by
  unfold serveOne at h ⊢
  cases hread : readRequest.run line with
  | error =>
    rw [hread] at h
    cases h
  | ok =>
    refine lt_of_eq_of_lt (congrArg length ?_) (readRequest_shorter hread)
    simp only [respond]
    split <;> rfl

/-- what the loop has done -/
structure Session (E : Type) where
  st : State E
  line : Line E
  log : List (Exchange E)
  events : List (Event E)
  err : Option String

def serve (cfg : Config E) (st : State E) (line : Line E) : Session E :=
  let t := serveOne cfg st line
  match _h : t.out with
  | .error err => ⟨t.st, t.line, [t.exchange], t.events, some err⟩
  | .ok true => ⟨t.st, t.line, [t.exchange], t.events, none⟩
  | .ok false =>
    let s := serve cfg t.st t.line
    ⟨s.st, s.line, t.exchange :: s.log, t.events ++ s.events, s.err⟩
termination_by line.incoming.length
decreasing_by exact serveOne_shorter _h

/-- what decides the end of a run besides the loop -/
structure Circumstances where
  /-- the `Detach` flag as `afterServe` reads it -/
  detach : Bool
  cancelled : Bool
  startd : Option Startd
  keepClaim : Bool
  forceWinddownFail : Bool

/-- what `Run` returns, and the commands it has sent to the startd -/
structure Outcome (E : Type) where
  result : Option (Result E)
  err : Option RunErr
  sent : List ClaimCmd

omit [ClassAdLib E] in
/-- what `afterServe` gets from the loop; the core reads the two numbers of the result -/
def Session.served (s : Session E) (c : Circumstances) : Served :=
  ⟨s.st.gotExit, ⟨s.st.result.exitStatus.toNat, s.st.result.reason⟩, s.err, c.cancelled, c.startd, c.keepClaim,
    c.forceWinddownFail⟩

/-- `Run`: the result returned is the one the loop has recorded -/
def run (cfg : Config E) (c : Circumstances) (line : Line E) : Outcome E :=
  let s := serve cfg {} line
  let out := afterServe c.detach (s.served c)
  ⟨out.1.1.map fun _ => s.st.result, out.1.2, out.2⟩

/-! ## Requests as they arrive -/

omit [ClassAdLib E] in
/-- the arguments that are read; what is left over may be anything -/
def Request.own (r : Request E) : List (Item E) := r.args.take (arguments r.op).length

omit [ClassAdLib E] in
/-- the arguments of the syscall are there -/
def Request.WellFormed (r : Request E) : Prop := r.own.map Item.kind = (arguments r.op).map fun a => some a.1

omit [ClassAdLib E] in
def Request.call (r : Request E) : Syscall E := .of r.op r.own

section Arrival

omit [ClassAdLib E]

variable {line : Line E} {r : Request E}

theorem bind_run {α β : Type} {x : Recv E α} {f : α → Recv E β} {a : α} {mid : Line E}
    (h : x.run line = .ok (a, mid)) : (x >>= f).run line = (f a).run mid := by
  rw [StateT.run_bind, h]
  rfl

theorem bind_error {α β : Type} {x : Recv E α} {f : α → Recv E β} (h : ∃ err, x.run line = .error err) :
    ∃ err, (x >>= f).run line = .error err := by
  obtain ⟨err, h⟩ := h
  rw [StateT.run_bind, h]
  exact ⟨err, rfl⟩

theorem take_arrived {α : Type} {what : String} {pick : Item E → Option α} {i : Item E} {a : α} (h : pick i = some a)
    (rest : List (Token E)) :
    (take what pick).run { line with incoming := .item i :: rest } = .ok (a, { line with incoming := rest }) := by
  simp only [take, StateT.run, h]

theorem readArgs_arrived {asked : List (Kind × String)} {args : List (Item E)}
    (h : args.map Item.kind = asked.map fun a => some a.1) (tail : List (Token E)) :
    (readArgs asked).run { line with incoming := args.map .item ++ tail } =
      .ok (args, { line with incoming := tail }) := by
  induction asked generalizing args with
  | nil =>
    rw [map_eq_nil_iff.1 h]
    rfl
  | cons a asked ih =>
    obtain ⟨_, _, rfl, hkind, hmore⟩ := map_eq_cons_iff.1 h
    exact (bind_run (take_arrived (if_pos hkind) _)).trans (bind_run (ih hmore))

theorem readArgs_cut {asked : List (Kind × String)} {args : List (Item E)}
    (h : args.map Item.kind = asked.map fun a => some a.1) {m : ℕ} (hm : m < args.length) :
    ∃ err, (readArgs asked).run { line with incoming := (args.take m).map .item } = .error err := by
  induction asked generalizing args m with
  | nil =>
    rw [map_eq_nil_iff.1 h] at hm
    exact absurd hm (Nat.not_lt_zero m)
  | cons a asked ih =>
    obtain ⟨_, _, rfl, hkind, hmore⟩ := map_eq_cons_iff.1 h
    cases m with
    | zero => exact bind_error ⟨_, rfl⟩
    | succ =>
      obtain ⟨err, herr⟩ := bind_error (ih hmore (Nat.lt_of_succ_lt_succ hm))
      exact ⟨err, (bind_run (take_arrived (if_pos hkind) _)).trans herr⟩

theorem drain_arrived (args : List (Item E)) (tail : List (Token E)) :
    drain.run { line with incoming := args.map .item ++ .eom :: tail } = .ok ((), { line with incoming := tail }) := by
  have hend : ∀ line' : Line E, drainFrom line' (args.map .item ++ .eom :: tail) = .ok tail := by
    intro line'
    induction args with
    | nil => rfl
    | cons i args ih => exact ih
  simp only [drain, StateT.run, hend]
  rfl

theorem drain_cut (heof : line.eof = false) (args : List (Item E)) :
    ∃ err, drain.run { line with incoming := args.map .item } = .error err := by
  have hend : ∀ line' : Line E, line'.eof = false → drainFrom line' (args.map .item) = .error line'.err := by
    intro line' heof'
    induction args with
    | nil => simp [drainFrom, heof']
    | cons i args ih => exact ih
  refine ⟨line.err, ?_⟩
  simp only [drain, StateT.run]
  rw [hend { line with incoming := args.map .item } heof]
  rfl

theorem readRequest_numbered (op : ℤ) (rest : List (Token E)) :
    readRequest.run { line with incoming := .item (.int op) :: rest } =
      (readArgs (arguments op) >>= fun args => drain >>= fun _ => pure (.of op args)).run
        { line with incoming := rest } := rfl

theorem readRequest_arrived (line : Line E) (h : r.WellFormed) (tail : List (Token E)) :
    readRequest.run { line with incoming := r.tokens ++ tail } = .ok (r.call, { line with incoming := tail }) := by
  have hsplit : r.tokens ++ tail = .item (.int r.op) :: (r.own.map .item ++
      ((r.args.drop (arguments r.op).length).map .item ++ .eom :: tail)) := by
    rw [← append_assoc, ← map_append, Request.own, take_append_drop]
    simp [Request.tokens]
  rw [hsplit, readRequest_numbered]
  exact (bind_run (readArgs_arrived h _)).trans (bind_run (drain_arrived _ tail))

/-- a request that is cut short is not read; where the end of the connection counts as the end of a message, nothing of
it may have come -/
theorem readRequest_cut (line : Line E) (h : r.WellFormed) {n : ℕ} (hn : n < r.tokens.length)
    (heof : line.eof = true → r.tokens.take n = []) :
    ∃ err, readRequest.run { line with incoming := r.tokens.take n } = .error err := by
  cases n with
  | zero => exact bind_error ⟨_, rfl⟩
  | succ n =>
    have hopen : line.eof = false := Bool.eq_false_iff.2 fun he => cons_ne_nil _ _ (heof he)
    have hn : n ≤ (r.args.map Token.item).length := by simpa [Request.tokens] using hn
    have hcut : r.tokens.take (n + 1) = .item (.int r.op) :: (r.args.take n).map .item := by
      rw [Request.tokens, take_succ_cons, take_append_of_le_length hn, map_take]
    rw [hcut, readRequest_numbered]
    have hlen : r.own.length = (arguments r.op).length := by simpa using congrArg length h
    by_cases hshort : n < r.own.length
    · -- the connection fails among the arguments
      have hown : r.args.take n = r.own.take n := by
        rw [Request.own, take_take, Nat.min_eq_left (by omega)]
      rw [hown]
      exact bind_error (readArgs_cut h hshort)
    · -- or after them, before the end of the message
      have hown : r.args.take n = r.own ++ (r.args.take n).drop (arguments r.op).length := by
        rw [Request.own, ← Nat.min_eq_left (show (arguments r.op).length ≤ n by omega), ← take_take,
          Nat.min_eq_left (by omega), take_append_drop]
      rw [hown, map_append]
      rw [bind_run (readArgs_arrived h _)]
      exact bind_error (drain_cut hopen _)

end Arrival

/-! ## What is read -/

section Calls

omit [ClassAdLib E]

variable {r : Request E}

theorem call_exit (h : r.WellFormed) (hop : r.op = opJobExit) : ∃ status reason ad rest,
    r.args = .int status :: .int reason :: .ad ad :: rest ∧ r.call = .jobExit status reason ad := by
  obtain ⟨op, args⟩ := r
  obtain rfl : op = opJobExit := hop
  match args, h with
  | .int status :: .int reason :: .ad ad :: rest, _ => exact ⟨status, reason, ad, rest, rfl, rfl⟩

theorem call_isExit (h : r.WellFormed) : r.call.isExit = decide (r.op = opJobExit) := by
  by_cases hop : r.op = opJobExit
  · obtain ⟨_, _, _, _, -, hcall⟩ := call_exit h hop
    rw [hcall, decide_eq_true hop]
    rfl
  · rw [decide_eq_false hop, Request.call]
    unfold Syscall.of
    split <;> (try split_ifs) <;> rfl

theorem call_isUlog (h : r.WellFormed) : r.call.isUlog = decide (r.op = opUlog) := by
  by_cases hop : r.op = opUlog
  · obtain ⟨op, args⟩ := r
    obtain rfl : op = opUlog := hop
    match args, h with
    | .ad ad :: rest, _ => rfl
  · rw [decide_eq_false hop, Request.call]
    unfold Syscall.of
    split <;> (try split_ifs) <;> rfl

end Calls

/-! ## One request -/

variable (cfg : Config E)

theorem answer_reply (st : State E) (call : Syscall E) : (answer cfg st call).reply.isSome = !call.isUlog := by
  cases call with
  | getJobInfo =>
    simp only [answer]
    cases buildJobInfoAd cfg <;> rfl
  | getSecSessionInfo =>
    simp only [answer]
    cases cfg.sessions <;> rfl
  | getJobAttr attr =>
    simp only [answer]
    cases lookupJobAttr cfg st attr <;> rfl
  | _ => rfl

/-- only job_exit records an exit -/
theorem answer_gotExit (st : State E) (call : Syscall E) :
    (answer cfg st call).st.gotExit = (st.gotExit || call.isExit) := by
  cases call with
  | jobExit => exact (Bool.or_true st.gotExit).symm
  | getJobInfo =>
    simp only [answer]
    cases buildJobInfoAd cfg <;> exact (Bool.or_false st.gotExit).symm
  | getSecSessionInfo =>
    simp only [answer]
    cases cfg.sessions <;> exact (Bool.or_false st.gotExit).symm
  | getJobAttr attr =>
    simp only [answer]
    cases lookupJobAttr cfg st attr <;> exact (Bool.or_false st.gotExit).symm
  | _ => exact (Bool.or_false st.gotExit).symm

theorem respond_ulog (st : State E) (line : Line E) {call : Syscall E} (h : call.isUlog = true) :
    ∃ events, respond cfg st line call = ⟨st, line, ⟨some call, []⟩, events, .ok false⟩ := by
  cases call with
  | ulog => exact ⟨_, rfl⟩
  | _ => cases h

theorem respond_lost (st : State E) (line : Line E) {call : Syscall E} (h : call.isUlog = false)
    (hw : line.writes = 0) :
    respond cfg st line call = ⟨(answer cfg st call).st, line, ⟨some call, []⟩, (answer cfg st call).events,
      if call.isExit then .ok true else .error line.err⟩ := by
  obtain ⟨_, hreply⟩ := Option.isSome_iff_exists.1 ((answer_reply cfg st call).trans (by rw [h]; rfl))
  simp only [respond, hreply, hw]

theorem respond_sent (st : State E) (line : Line E) {call : Syscall E} (h : call.isUlog = false)
    {w : ℕ} (hw : line.writes = w + 1) :
    ∃ reply, respond cfg st line call = ⟨(answer cfg st call).st, { line with writes := w }, ⟨some call, [reply]⟩,
      (answer cfg st call).events, .ok call.isExit⟩ := by
  obtain ⟨reply, hreply⟩ := Option.isSome_iff_exists.1 ((answer_reply cfg st call).trans (by rw [h]; rfl))
  exact ⟨reply, by simp only [respond, hreply, hw]⟩

omit [ClassAdLib E] in
/-- the recorded exit is the one of the request -/
def Recorded (req : Request E) (res : Result E) : Prop :=
  ∃ status reason ad rest, req.args = .int status :: .int reason :: .ad ad :: rest ∧
    res.exitStatus = status ∧ res.reason = normalizeReason reason ∧ res.exitAd = some ad

theorem answer_recorded (st : State E) {r : Request E} (h : r.WellFormed) (hop : r.op = opJobExit) :
    Recorded r (answer cfg st r.call).st.result := by
  obtain ⟨status, reason, ad, rest, hargs, hcall⟩ := call_exit h hop
  rw [hcall]
  exact ⟨status, reason, ad, rest, hargs, rfl, rfl, rfl⟩

/-! ## The loop -/

theorem serve_stops {cfg : Config E} {st : State E} {line : Line E} (h : (serveOne cfg st line).out ≠ .ok false) :
    ∃ err, serve cfg st line = ⟨(serveOne cfg st line).st, (serveOne cfg st line).line,
      [(serveOne cfg st line).exchange], (serveOne cfg st line).events, err⟩ := by
  rw [serve]
  dsimp only
  split
  · exact ⟨_, rfl⟩
  · exact ⟨_, rfl⟩
  · next hout => exact absurd hout h

theorem serve_goes_on {cfg : Config E} {st : State E} {line : Line E} (h : (serveOne cfg st line).out = .ok false) :
    let t := serveOne cfg st line
    let s := serve cfg t.st t.line
    serve cfg st line = ⟨s.st, s.line, t.exchange :: s.log, t.events ++ s.events, s.err⟩ := by
  intro t s
  rw [serve]
  dsimp only
  split
  · next hout => cases h.symm.trans hout
  · next hout => cases h.symm.trans hout
  · rfl

omit [ClassAdLib E] in
/-- the requests that are read to their end when `n` tokens come and `w` replies can be written: the whole message must
come, and nothing is read after a job_exit or a reply that is lost -/
def fullyRead : ℕ → ℕ → List (Request E) → List (Request E)
  | _, _, [] => []
  | n, w, r :: reqs =>
    if n < r.tokens.length then []
    else if r.op = opJobExit then [r]
    else if r.op = opUlog then r :: fullyRead (n - r.tokens.length) w reqs
    else
      match w with
      | 0 => [r]
      | w + 1 => r :: fullyRead (n - r.tokens.length) w reqs

/-- what the loop keeps, from any state, when `n` tokens of the requests come -/
structure Session.Sound (st : State E) (n w : ℕ) (reqs : List (Request E)) (s : Session E) : Prop where
  read : s.log.filterMap (·.call) = (fullyRead n w reqs).map Request.call
  replies : reqs.length ≤ w → s.log.filterMap (fun x => x.call.map fun _ => x.replies.length) =
    (fullyRead n w reqs).map fun r => if r.op = opUlog then 0 else 1
  silent : ∀ x ∈ s.log, x.call = none → x.replies = []
  gotExit : s.st.gotExit = (st.gotExit || (fullyRead n w reqs).any (·.op = opJobExit))
  result : ∀ r ∈ fullyRead n w reqs, r.op = opJobExit → Recorded r s.st.result
  left : ∀ r ∈ fullyRead n w reqs, r.op = opJobExit →
    s.line.incoming = ((wire reqs).take n).drop (wire (fullyRead n w reqs)).length

/-- the turn that reads no request is the last -/
theorem serve_cut {cfg : Config E} {st : State E} {line : Line E} (h : ∃ err, readRequest.run line = .error err)
    {n : ℕ} {reqs : List (Request E)} (hread : fullyRead n line.writes reqs = []) :
    (serve cfg st line).Sound st n line.writes reqs := by
  obtain ⟨err, h⟩ := h
  have hturn : serveOne cfg st line = ⟨st, line, ⟨none, []⟩, [], .error err⟩ := by
    simp only [serveOne, h]
  have hout : (serveOne cfg st line).out ≠ .ok false := by
    rw [hturn]
    nofun
  obtain ⟨_, hs⟩ := serve_stops hout
  rw [hs, hturn]
  refine ⟨by rw [hread]; rfl, fun _ => by rw [hread]; rfl, ?_, by simp [hread], by simp [hread], by simp [hread]⟩
  intro x hx _
  rw [mem_singleton.1 hx]

section Turns

omit [ClassAdLib E]

variable {st st' : State E} {n w w' : ℕ} {r : Request E} {reqs : List (Request E)} {reps : List (Reply E)}

theorem fullyRead_exit (hn : ¬ n < r.tokens.length) (h : r.op = opJobExit) : fullyRead n w (r :: reqs) = [r] := by
  cases w <;> simp [fullyRead, hn, h]

theorem fullyRead_ulog (hn : ¬ n < r.tokens.length) (h : r.op = opUlog) :
    fullyRead n w (r :: reqs) = r :: fullyRead (n - r.tokens.length) w reqs := by
  have hexit : r.op ≠ opJobExit := h ▸ by decide
  cases w <;> simp only [fullyRead, if_neg hn, if_neg hexit, if_pos h]

theorem fullyRead_lost (hn : ¬ n < r.tokens.length) (h : r.op ≠ opUlog) : fullyRead n 0 (r :: reqs) = [r] := by
  simp [fullyRead, hn, h]

theorem fullyRead_sent (hn : ¬ n < r.tokens.length) (h : r.op ≠ opUlog) (hexit : r.op ≠ opJobExit) :
    fullyRead n (w + 1) (r :: reqs) = r :: fullyRead (n - r.tokens.length) w reqs := by
  rw [fullyRead, if_neg hn, if_neg hexit, if_neg h]

theorem wire_take (hn : r.tokens.length ≤ n) :
    (wire (r :: reqs)).take n = r.tokens ++ (wire reqs).take (n - r.tokens.length) := by
  rw [wire, flatMap_cons, take_append, take_of_length_le hn]
  rfl

/-- the loop ends with a request that was read -/
theorem Session.Sound.last (hread : fullyRead n w (r :: reqs) = [r]) (hn : r.tokens.length ≤ n) {line : Line E}
    (hline : line.incoming = (wire reqs).take (n - r.tokens.length))
    (hreps : 0 < w → reps.length = if r.op = opUlog then 0 else 1)
    (hgot : st'.gotExit = (st.gotExit || decide (r.op = opJobExit))) (hres : r.op = opJobExit → Recorded r st'.result)
    (events : List (Event E)) (err : Option String) :
    Session.Sound st n w (r :: reqs) ⟨st', line, [⟨some r.call, reps⟩], events, err⟩ := by
  refine ⟨by rw [hread]; rfl, fun hlen => ?_, ?_, by simp [hread, hgot], ?_, ?_⟩
  · rw [hread]
    simp [hreps (lt_of_lt_of_le (Nat.succ_pos _) hlen)]
  · intro x hx hcall
    rw [mem_singleton.1 hx] at hcall
    cases hcall
  · intro x hx hop
    rw [hread, mem_singleton] at hx
    exact hx ▸ hres (hx ▸ hop)
  · intro x hx hop
    rw [hread, wire_take hn, hline]
    simp [wire]

/-- the loop goes on after a request that was read -/
theorem Session.Sound.next {s : Session E} (hs : s.Sound st' (n - r.tokens.length) w' reqs)
    (hread : fullyRead n w (r :: reqs) = r :: fullyRead (n - r.tokens.length) w' reqs) (hn : r.tokens.length ≤ n)
    (hop : r.op ≠ opJobExit) (hgot : st'.gotExit = st.gotExit) (hw : w ≤ w' + 1)
    (hreps : reps.length = if r.op = opUlog then 0 else 1) (events : List (Event E)) (err : Option String) :
    Session.Sound st n w (r :: reqs) ⟨s.st, s.line, ⟨some r.call, reps⟩ :: s.log, events, err⟩ := by
  have hrest : ∀ x ∈ fullyRead n w (r :: reqs), x.op = opJobExit → x ∈ fullyRead (n - r.tokens.length) w' reqs := by
    intro x hx hexit
    rw [hread] at hx
    exact (mem_cons.1 hx).resolve_left fun he => hop (he ▸ hexit)
  refine ⟨by rw [hread, map_cons, ← hs.read]; rfl, fun hlen => ?_, ?_, ?_, ?_, ?_⟩
  · rw [hread, map_cons, ← hs.replies (by simp only [length_cons] at hlen; omega), ← hreps]
    rfl
  · intro x hx hcall
    rcases mem_cons.1 hx with rfl | hx
    · cases hcall
    · exact hs.silent x hx hcall
  · rw [hs.gotExit, hread, hgot]
    simp [hop]
  · exact fun x hx hexit => hs.result x (hrest x hx hexit) hexit
  · intro x hx hexit
    rw [hs.left x (hrest x hx hexit) hexit, hread, wire_take hn]
    simp [wire, drop_append]

end Turns

theorem serve_sound {reqs : List (Request E)} (hreqs : ∀ r ∈ reqs, r.WellFormed) (st : State E)
    {line : Line E} {n : ℕ} (hline : line.incoming = (wire reqs).take n)
    (heof : line.eof = true → ∃ k, line.incoming = wire (reqs.take k)) :
    (serve cfg st line).Sound st n line.writes reqs := by
  induction reqs generalizing st line n with
  | nil =>
    obtain ⟨incoming, writes, err, eof⟩ := line
    obtain rfl : incoming = [] := by simpa [wire] using hline
    exact serve_cut (bind_error ⟨_, rfl⟩) rfl
  | cons r reqs ih =>
    obtain ⟨incoming, writes, err, eof⟩ := line
    have hwf := hreqs r mem_cons_self
    by_cases hn : n < r.tokens.length
    · -- the request does not come as a whole
      have hcut : incoming = r.tokens.take n := by
        refine hline.trans ?_
        rw [wire, flatMap_cons, take_append_of_le_length hn.le]
      subst hcut
      refine serve_cut (readRequest_cut ⟨[], writes, err, eof⟩ hwf hn fun he => ?_) (if_pos hn)
      obtain ⟨k, hk⟩ := heof he
      cases k with
      | zero => exact hk
      | succ =>
        have hlen := congrArg length hk
        simp only [take_succ_cons, wire, flatMap_cons, length_append, length_take] at hlen
        omega
    · have hle : r.tokens.length ≤ n := Nat.le_of_not_lt hn
      obtain rfl : incoming = _ := hline.trans (wire_take hle)
      have hturn : serveOne cfg st ⟨r.tokens ++ (wire reqs).take (n - r.tokens.length), writes, err, eof⟩ =
          respond cfg st ⟨(wire reqs).take (n - r.tokens.length), writes, err, eof⟩ r.call := by
        unfold serveOne
        rw [readRequest_arrived ⟨[], writes, err, eof⟩ hwf]
      have heof' : eof = true → ∃ k, (wire reqs).take (n - r.tokens.length) = wire (reqs.take k) := by
        intro he
        obtain ⟨k, hk⟩ := heof he
        cases k with
        | zero => cases hk
        | succ k => exact ⟨k, append_cancel_left hk⟩
      have hgot := answer_gotExit cfg st r.call
      rw [call_isExit hwf] at hgot
      have hulog := call_isUlog hwf
      have hrest : ∀ st' w', (serve cfg st' ⟨(wire reqs).take (n - r.tokens.length), w', err, eof⟩).Sound st'
          (n - r.tokens.length) w' reqs :=
        fun st' w' => @ih (fun x hx => hreqs x (mem_cons_of_mem _ hx)) st' ⟨_, w', err, eof⟩ _ rfl heof'
      by_cases hop : r.op = opUlog
      · obtain ⟨_, hresp⟩ := respond_ulog cfg st ⟨(wire reqs).take (n - r.tokens.length), writes, err, eof⟩
          (hulog.trans (decide_eq_true hop))
        rw [hresp] at hturn
        rw [serve_goes_on (congrArg Turn.out hturn), hturn]
        refine (hrest st writes).next (fullyRead_ulog hn hop) hle (hop ▸ by decide) rfl (Nat.le_succ _) ?_ _ _
        exact (if_pos hop).symm
      · rw [decide_eq_false hop] at hulog
        cases writes with
        | zero =>
          rw [respond_lost cfg st _ hulog rfl] at hturn
          have hout : (serveOne cfg st ⟨r.tokens ++ (wire reqs).take (n - r.tokens.length), 0, err, eof⟩).out ≠
              .ok false := by
            rw [hturn]
            cases r.call.isExit <;> nofun
          obtain ⟨err', hs⟩ := serve_stops hout
          rw [hs, hturn]
          exact .last (fullyRead_lost hn hop) hle rfl (fun h => absurd h (lt_irrefl 0)) hgot
            (answer_recorded cfg st hwf) _ _
        | succ w =>
          obtain ⟨_, hresp⟩ := respond_sent cfg st
            ⟨(wire reqs).take (n - r.tokens.length), w + 1, err, eof⟩ hulog rfl
          rw [hresp, call_isExit hwf] at hturn
          by_cases hexit : r.op = opJobExit
          · have hout : (serveOne cfg st ⟨r.tokens ++ (wire reqs).take (n - r.tokens.length), w + 1, err, eof⟩).out ≠
                .ok false := by
              rw [hturn, decide_eq_true hexit]
              nofun
            obtain ⟨_, hs⟩ := serve_stops hout
            rw [hs, hturn]
            exact .last (fullyRead_exit hn hexit) hle rfl (fun _ => (if_neg hop).symm) hgot
              (answer_recorded cfg st hwf) _ _
          · rw [decide_eq_false hexit] at hturn hgot
            rw [serve_goes_on (congrArg Turn.out hturn), hturn]
            refine (hrest _ w).next (fullyRead_sent hn hop hexit) hle hexit (hgot.trans (Bool.or_false _)) le_rfl ?_ _ _
            exact (if_neg hop).symm

/-! ## The end of a run -/

/-- how the claim is deactivated: JOB_DONE when the job has exited, and gracefully after it if the startd does not know
it; at once when the run was cancelled -/
def deactivations (startd : Startd) (jobDone cancelled : Bool) : List ClaimCmd :=
  if jobDone then
    .deactivate .jobDone :: if (startd.deactivate .jobDone).isSome then [.deactivate .graceful] else []
  else if cancelled then [.deactivate .forcibly]
  else [.deactivate .graceful]

theorem winddown_sends (startd : Startd) (jobDone cancelled : Bool) :
    (winddown startd false jobDone (cancelled && !jobDone)).2 = deactivations startd jobDone cancelled ++
    [.release] := by
  unfold winddown deactivations
  cases jobDone <;> cases cancelled <;> cases hj : startd.deactivate .jobDone <;> cases hg :
    startd.deactivate .graceful <;>
    cases hf : startd.deactivate .forcibly <;> cases startd.release <;> simp [hj, hg, hf]

/-- a result is returned exactly when an exit was received -/
theorem afterServe_isSome (detach : Bool) (s : Served) : (afterServe detach s).1.1.isSome = s.gotExit := by
  unfold afterServe
  by_cases h : detach = true ∧ ¬ s.gotExit = true
  · rw [if_pos h]
    simpa using h.2
  · rw [if_neg h]
    dsimp only
    cases s.gotExit with
    | true =>
      simp only [if_true]
      split <;> rfl
    | false =>
      simp only [Bool.false_eq_true, if_false]
      split <;> rfl

/-- a detached shadow has sent nothing, any other what the wind-down sends -/
theorem afterServe_sends (detach : Bool) (s : Served) :
    ((afterServe detach s).1.2 = some .detached → (afterServe detach s).2 = []) ∧
      ((afterServe detach s).1.2 ≠ some .detached → (afterServe detach s).2 = s.wind.2) := by
  unfold afterServe
  by_cases h : detach = true ∧ ¬ s.gotExit = true
  · rw [if_pos h]
    exact ⟨fun _ => rfl, fun hne => absurd rfl hne⟩
  · rw [if_neg h]
    dsimp only
    refine ⟨fun hd => ?_, fun _ => rfl⟩
    cases hg : s.gotExit <;> simp only [hg, if_true, Bool.false_eq_true, if_false] at hd <;> split at hd <;> cases hd

/-- **The protocol of a run.** For any requests of the starter with the arguments of their syscalls, any point at which
the connection fails, any state of the context and any value of the flag, where a connection that fails within a message
does not fail with an `io.EOF`:

- the syscalls read are those of the requests that come as a whole, up to a job_exit; each has one reply, `ulog` none,
  as long as writes succeed; a turn that reads none sends nothing, and what comes after a job_exit stays unread;
- the run has a result exactly when a job_exit was read to its end, and it is that one, its reason normalized;
- a detached shadow has sent nothing to the startd; any other that has a client and does not keep the claim has
  deactivated it, in the way its end calls for, and then released it, once. -/
theorem run_protocol (cfg : Config E) (c : Circumstances) {reqs : List (Request E)}
    (hreqs : ∀ r ∈ reqs, r.WellFormed) {line : Line E} {n : ℕ} (hline : line.incoming = (wire reqs).take n)
    (heof : line.eof = true → ∃ k, line.incoming = wire (reqs.take k)) :
    let read := fullyRead n line.writes reqs
    let s := serve cfg {} line
    let out := run cfg c line
    (s.log.filterMap (·.call) = read.map Request.call ∧
      (reqs.length ≤ line.writes → s.log.filterMap (fun x => x.call.map fun _ => x.replies.length) =
        read.map fun r => if r.op = opUlog then 0 else 1) ∧
      (∀ x ∈ s.log, x.call = none → x.replies = []) ∧
      ∀ r ∈ read, r.op = opJobExit → s.line.incoming = line.incoming.drop (wire read).length) ∧
    (out.result.isSome = read.any (·.op = opJobExit) ∧
      ∀ r ∈ read, r.op = opJobExit → ∃ res, out.result = some res ∧ Recorded r res) ∧
    (out.err = some .detached → out.sent = []) ∧
    (out.err ≠ some .detached → ∀ startd, c.startd = some startd → c.keepClaim = false →
      out.sent = deactivations startd (read.any (·.op = opJobExit)) c.cancelled ++ [.release]) := by
  intro read s out
  have hsound : s.Sound {} n line.writes reqs := serve_sound cfg hreqs {} hline heof
  have hgot : s.st.gotExit = read.any (·.op = opJobExit) := by
    rw [hsound.gotExit]
    rfl
  have hsome : out.result.isSome = read.any (·.op = opJobExit) := by
    rw [← hgot]
    exact (Option.isSome_map ..).trans (afterServe_isSome c.detach (s.served c))
  obtain ⟨hdetached, hsends⟩ := afterServe_sends c.detach (s.served c)
  refine ⟨⟨hsound.read, hsound.replies, hsound.silent, hline ▸ hsound.left⟩, ⟨hsome, fun r hr hop => ?_⟩, hdetached,
    fun herr startd hstartd hkeep => ?_⟩
  · have hany : read.any (·.op = opJobExit) = true := any_eq_true.2 ⟨r, hr, decide_eq_true hop⟩
    obtain ⟨res, hres⟩ := Option.isSome_iff_exists.1 (hsome.trans hany)
    obtain ⟨_, -, hx⟩ := Option.map_eq_some_iff.1 hres
    exact ⟨res, hres, hx ▸ hsound.result r hr hop⟩
  · have hwind := hsends herr
    rw [← hgot]
    refine Eq.trans hwind ?_
    simp only [Served.wind, Session.served, hstartd, hkeep]
    exact winddown_sends startd s.st.gotExit c.cancelled

end

/-- a starter that begins, logs, asks for what the shadow does not know, and exits as an old one does -/
def oldStarter : List (Request Value) :=
  [⟨opBeginExecution, []⟩, ⟨opUlog, [.ad .empty]⟩, ⟨9999, [.str "some-arg", .int 42]⟩,
    ⟨opJobExit, [.int 256, .int 0, .ad .empty, .byte 0]⟩, ⟨opGetUserInfo, []⟩]

theorem old_starter_served :
    let cfg : Config Value := ⟨.empty, "<127.0.0.1:12345>", "", "", none, some, none, 1000, 1000⟩
    let c : Circumstances := ⟨false, false, none, false, false⟩
    -- the starter closes the connection after its last request
    let line : Line Value := ⟨wire oldStarter, 5, "EOF", true⟩
    fullyRead (wire oldStarter).length 5 oldStarter = oldStarter.take 4 ∧
      (serve cfg {} line).log.filterMap (fun x => x.call.map fun _ => x.replies.length) = [1, 0, 1, 1] ∧
      (serve cfg {} line).line.incoming = Request.tokens ⟨opGetUserInfo, []⟩ ∧
      ∃ res, (run cfg c line).result = some res ∧
        Recorded ⟨opJobExit, [.int 256, .int 0, .ad .empty, .byte 0]⟩ res := by
  intro cfg c line
  have hwf : ∀ r ∈ oldStarter, r.WellFormed := by
    simp only [oldStarter, forall_mem_cons]
    exact ⟨rfl, rfl, rfl, rfl, rfl, nofun⟩
  have hline : line.incoming = (wire oldStarter).take (wire oldStarter).length := take_length.symm
  obtain ⟨⟨-, hreplies, -, hleft⟩, ⟨-, hresult⟩, -⟩ := run_protocol cfg c hwf hline fun _ => ⟨5, rfl⟩
  have hexit : ⟨opJobExit, [.int 256, .int 0, .ad .empty, .byte 0]⟩ ∈ oldStarter.take 4 := by
    simp [oldStarter]
  exact ⟨rfl, hreplies le_rfl, hleft _ hexit rfl, hresult _ hexit rfl⟩

end AccessPoint.Shadow

/-
The file-transfer endpoint (shadow/transfer.go): one command server for all shadows. The starter of a job connects back
to it and names its shadow by the TransferKey it was given, `seq#time` and two random words.

`FileServer.step` interleaves the shadows and the connections as they come: a shadow draws its key and registers its
route in two steps, and tears the route down at its end; a connection looks its route up once and goes on with that
route, whatever happens to the shadow meanwhile. The sequence number is a 64-bit counter of the process; the random
words need not differ.

- `transferKey_seq`: a key shows its sequence number.
- `connections_routed`: a key leads to the shadow it was issued to, from its registration to its end and never after;
  what arrives over a connection lands under the Iwd of that shadow's job and is recorded for that job.
-/
import AccessPoint.Shadow.InputPlan

namespace AccessPoint

open ClassAdLib Spool List

namespace Text

/-! ## Hexadecimal numerals -/

/-- `%x` of an unsigned number -/
def hex (n : ℕ) : List Char := Nat.toDigits 16 n

theorem digitChar_hex {d : ℕ} (hd : d < 16) :
    Nat.digitChar d ≠ '#' ∧ ∀ e < 16, Nat.digitChar d = Nat.digitChar e → d = e := by
  interval_cases d <;> refine ⟨by decide, fun e he h => ?_⟩ <;> interval_cases e <;> first | rfl |
    exact absurd h (by decide)

theorem hash_notMem_hex (n : ℕ) : '#' ∉ hex n := by
  induction n using Nat.strongRecOn with
  | ind n ih =>
    unfold hex
    rw [Nat.toDigits_eq_if (by omega)]
    split_ifs with hn
    · rw [mem_singleton]
      exact fun h => (digitChar_hex hn).1 h.symm
    · rw [mem_append, mem_singleton, not_or]
      exact ⟨ih (n / 16) (by omega), fun h => (digitChar_hex (Nat.mod_lt n (by decide))).1 h.symm⟩

theorem hex_injective {m n : ℕ} (h : hex m = hex n) : m = n := by
  induction m using Nat.strongRecOn generalizing n with
  | ind m ih =>
    have hpos : ∀ a : ℕ, Nat.toDigits 16 (a / 16) ≠ [] := fun a => Nat.toDigits_ne_nil
    unfold hex at h
    rw [Nat.toDigits_eq_if (by omega : 1 < 16) (n := m), Nat.toDigits_eq_if (by omega : 1 < 16) (n := n)] at h
    split_ifs at h with hm hn hn
    · exact (digitChar_hex hm).2 n hn (cons.inj h).1
    · -- a numeral of one digit and one of more
      have hlen := congrArg length h
      simp only [length_append, length_singleton] at hlen
      exact absurd (eq_nil_of_length_eq_zero (by omega)) (hpos n)
    · have hlen := congrArg length h
      simp only [length_append, length_singleton] at hlen
      exact absurd (eq_nil_of_length_eq_zero (by omega)) (hpos m)
    · obtain ⟨hdiv, hmod⟩ := append_inj' h rfl
      have hq := ih (m / 16) (by omega) hdiv
      have hr := (digitChar_hex (Nat.mod_lt m (by decide))).2 _ (Nat.mod_lt n (by decide)) (cons.inj hmod).1
      omega

end Text

namespace Shadow

open Text

/-! ## Keys and routes -/

/-- the key `generateTransferKey` makes of the sequence number, the time and two random words -/
def transferKey (seq now r₁ r₂ : ℕ) : String := String.ofList (hex seq ++ '#' :: (hex now ++ (hex r₁ ++ hex r₂)))

/-- **A key shows its sequence number.** -/
theorem transferKey_seq {seq now r₁ r₂ seq' now' r₁' r₂' : ℕ}
    (h : transferKey seq now r₁ r₂ = transferKey seq' now' r₁' r₂') :
    seq = seq' := by
  have hchars := String.ofList_injective h
  apply hex_injective
  rw [← (takeWhile_ne_append (hash_notMem_hex seq) _).1, hchars, (takeWhile_ne_append (hash_notMem_hex seq') _).1]

variable {E : Type} [ClassAdLib E]

/-- `transferRoute` -/
structure Route where
  plan : List FileSpec
  sink : IwdSink
  spooled : Bool
  job : JobKey

/-- the ad was rewritten for spooling -/
def isSpooled (ad : Ad E) : Bool := (ad .submitIwd).isSome || decide (0 < (ad.evaluateAttrInt .stageInFinish).getD 0)

/-- `setupTransfer` up to the key; `session`: the claim id carries a security session -/
def prepareRoute (dirSize : ℕ) (disk : Spool.Disk) (claimID : String) (session : Bool) (ad : Ad E) :
    Except String Route :=
  if claimID = "" then .error "shadow: file transfer requires Config.ClaimID"
  else if session = false then .error "shadow: claim id carries no security session"
  else
    match buildInputPlan dirSize disk ad with
    | .error err => .error err
    | .ok plan =>
      match buildOutputSink ad with
      | .error err => .error err
      | .ok sink => .ok ⟨plan, sink, isSpooled ad, ⟨ad.int0 .clusterId, ad.int0 .procId⟩⟩

/-- the names of the received files that are reported for a spooled job -/
def spooledFiles (files : List String) : List String :=
  files.filter fun name => !(name == "_condor_stdout" || name == "_condor_stderr" || name.toList.contains '/')

end Shadow

/-! ## The server -/

namespace FileServer

open Shadow

/-- how far a shadow has come with its route -/
inductive Phase where
  | keyed
  | registered
  | gone
deriving DecidableEq, Repr

/-- `transferState` of a shadow -/
structure Agent where
  key : String
  route : Route
  phase : Phase

/-- a FILETRANS_DOWNLOAD connection: the key it came with, the route it found and the files received -/
structure Conn where
  key : String
  route : Route
  files : List String
  live : Bool

/-- what a connection does outside the endpoint -/
inductive Act where
  | mkdir (path : String)
  | store (path : String) (mode : ℤ) (bytes : List UInt8)
  /-- the call of the output recorder -/
  | record (k : JobKey) (files : List String)

/-- an act, and the key of the connection it is done for -/
structure Effect where
  key : String
  act : Act

structure State where
  /-- `transferSeq` -/
  seq : ℕ
  routes : KeyMap String Route
  shadows : List Agent
  conns : List Conn
  effects : List Effect

def start : State := ⟨0, ∅, [], [], []⟩

inductive Event (E : Type) where
  /-- `setupTransfer` of a new shadow up to `generateTransferKey` -/
  | setup (dirSize : ℕ) (disk : Spool.Disk) (claimID : String) (session : Bool) (ad : Ad E) (now r₁ r₂ : ℕ)
  /-- the rest of `setupTransfer` -/
  | register (i : ℕ)
  /-- `teardownTransfer` -/
  | teardown (i : ℕ)
  /-- `doDownload` up to the lookup -/
  | connect (key : String)
  /-- the starter sends a directory or a file; `stop`: an error of the sink ends the stream -/
  | mkdir (j : ℕ) (name : String) (stop : Bool)
  | file (j : ℕ) (name : String) (mode : ℤ) (bytes : List UInt8) (stop : Bool)
  /-- the stream ends, with an acknowledgement or in an error -/
  | finish (j : ℕ) (ok : Bool)

variable {E : Type} [ClassAdLib E]

/-- `doUpload`: the plan that is sent -/
def doUpload (E : Type) [ClassAdLib E] (s : State) (key : String) : Except String (List FileSpec) :=
  match s.routes.lookup key with
  | none => .error ("filetransfer endpoint: no route for upload TransferKey " ++ quote E key)
  | some route => .ok route.plan

/-- the connection `j` as `f` leaves it, with the acts that go with it -/
def State.serve (s : State) (j : ℕ) (f : Conn → Conn × List Act) : State :=
  match s.conns[j]? with
  | none => s
  | some c =>
    if c.live then { s with conns := s.conns.set j (f c).1, effects := s.effects ++ (f c).2.map (⟨c.key, ·⟩) } else s

/-- a call of the sink -/
def sinkCall (E : Type) [ClassAdLib E] (name : String) (files : List String) (stop : Bool) (act : String → Act)
    (c : Conn) : Conn × List Act :=
  match c.route.sink.dest E name with
  | .error _ => ({ c with live := c.live && !stop }, [])
  | .ok path => ({ c with files := c.files ++ files }, [act path])

def step (s : State) : Event E → State
  | .setup dirSize disk claimID session ad now r₁ r₂ =>
    match prepareRoute dirSize disk claimID session ad with
    | .error _ => s
    | .ok route =>
      let seq := (s.seq + 1) % 2 ^ 64
      { s with seq := seq, shadows := s.shadows ++ [⟨transferKey seq now r₁ r₂, route, .keyed⟩] }
  | .register i =>
    match s.shadows[i]? with
    | none => s
    | some a =>
      if a.phase = .keyed then
        { s with routes := s.routes.insert a.key a.route, shadows := s.shadows.set i { a with phase := .registered } }
      else s
  | .teardown i =>
    match s.shadows[i]? with
    | none => s
    | some a =>
      if a.phase = .keyed then s
      else { s with routes := s.routes.erase a.key, shadows := s.shadows.set i { a with phase := .gone } }
  | .connect key =>
    match s.routes.lookup key with
    | none => s
    | some route => { s with conns := s.conns ++ [⟨key, route, [], true⟩] }
  | .mkdir j name stop => s.serve j (sinkCall E name [] stop .mkdir)
  | .file j name mode bytes stop => s.serve j (sinkCall E name [name] stop fun path => .store path mode bytes)
  | .finish j ok => s.serve j fun c =>
      ({ c with live := false }, if ok ∧ c.route.spooled then [.record c.route.job (spooledFiles c.files)] else [])

/-! ## Routes -/

/-- an act that a connection with this route may do -/
def Act.Allowed (route : Route) : Act → Prop
  | .mkdir path => StaysUnder route.sink.iwd (.ok path)
  | .store path _ _ => StaysUnder route.sink.iwd (.ok path)
  | .record k files => route.spooled = true ∧ k = route.job ∧ files = spooledFiles files

/-- the key was issued to a shadow with this route -/
def State.Issued (s : State) (key : String) (route : Route) : Prop := ∃ a ∈ s.shadows, a.key = key ∧ a.route = route

structure Inv (s : State) : Prop where
  seq : s.seq = s.shadows.length
  keys : ∀ (i : ℕ) (a : Agent), s.shadows[i]? = some a → ∃ now r₁ r₂, a.key = transferKey (i + 1) now r₁ r₂
  routes : ∀ key route, s.routes.lookup key = some route ↔
    ∃ (i : ℕ) (a : Agent), s.shadows[i]? = some a ∧ a.key = key ∧ a.phase = .registered ∧ a.route = route
  conns : ∀ c ∈ s.conns, s.Issued c.key c.route
  effects : ∀ e ∈ s.effects, ∃ route, s.Issued e.key route ∧ e.act.Allowed route

variable {s : State}

/-- no two shadows have one key -/
theorem Inv.key_injective (h : Inv s) {i j : ℕ} {a b : Agent} (hi : s.shadows[i]? = some a)
    (hj : s.shadows[j]? = some b) (hkey : a.key = b.key) : i = j := by
  obtain ⟨_, _, _, ha⟩ := h.keys i a hi
  obtain ⟨_, _, _, hb⟩ := h.keys j b hj
  have hseq := transferKey_seq (ha.symm.trans (hkey.trans hb))
  omega

theorem Inv.keys_nodup (h : Inv s) : (s.shadows.map Agent.key).Nodup := by
  rw [nodup_iff_getElem?_ne_getElem?]
  intro i j hij hj heq
  rw [length_map] at hj
  rw [getElem?_map, getElem?_map, getElem?_eq_getElem hj,
    getElem?_eq_getElem (hij.trans hj)] at heq
  have hsame := h.key_injective (getElem?_eq_getElem (hij.trans hj)) (getElem?_eq_getElem hj)
    (Option.some.inj heq)
  omega

/-- the shadows keep their keys and routes -/
def State.Extends (s s' : State) : Prop := ∀ (i : ℕ) (a : Agent), s.shadows[i]? = some a → ∃ a' : Agent,
  s'.shadows[i]? = some a' ∧ a'.key = a.key ∧ a'.route = a.route ∧ (a.phase = .gone → a'.phase = .gone)

theorem State.Extends.refl (s : State) : s.Extends s := fun _ a h => ⟨a, h, rfl, rfl, id⟩

theorem State.Extends.trans {s s' s'' : State} (h : s.Extends s') (h' : s'.Extends s'') : s.Extends s'' := by
  intro i a hi
  obtain ⟨a', hi', hkey, hroute, hgone⟩ := h i a hi
  obtain ⟨a'', hi'', hkey', hroute', hgone'⟩ := h' i a' hi'
  exact ⟨a'', hi'', hkey'.trans hkey, hroute'.trans hroute, fun hg => hgone' (hgone hg)⟩

theorem State.Extends.issued {s s' : State} (h : s.Extends s') {key : String} {route : Route}
    (hi : s.Issued key route) :
    s'.Issued key route := by
  obtain ⟨a, hin, rfl, rfl⟩ := hi
  obtain ⟨i, hget⟩ := mem_iff_getElem?.1 hin
  obtain ⟨a', hget', hkey, hroute, -⟩ := h i a hget
  exact ⟨a', mem_iff_getElem?.2 ⟨i, hget'⟩, hkey, hroute⟩

variable {a : Agent} {i : ℕ}

/-- a shadow moves on -/
theorem extends_set {s s' : State} {phase : Phase} (hi : s.shadows[i]? = some a)
    (hs : s'.shadows = s.shadows.set i { a with phase := phase }) (hphase : a.phase = .gone → phase = .gone) :
    s.Extends s' := by
  intro j b hj
  rw [hs, getElem?_set]
  by_cases hij : i = j
  · subst hij
    obtain rfl : a = b := Option.some.inj (hi.symm.trans hj)
    have hlt : i < s.shadows.length := (List.getElem?_eq_some_iff.1 hi).1
    rw [if_pos rfl, if_pos hlt]
    exact ⟨_, rfl, rfl, rfl, hphase⟩
  · rw [if_neg hij]
    exact ⟨b, hj, rfl, rfl, id⟩

/-- a shadow is added -/
theorem extends_append {s s' : State} (hs : s'.shadows = s.shadows ++ [a]) : s.Extends s' := by
  intro i b hi
  have hlt : i < s.shadows.length := (List.getElem?_eq_some_iff.1 hi).1
  exact ⟨b, by rw [hs, List.getElem?_append_left hlt]; exact hi, rfl, rfl, id⟩

theorem serve_shadows (s : State) (j : ℕ) (f : Conn → Conn × List Act) : (s.serve j f).shadows = s.shadows := by
  unfold State.serve
  cases s.conns[j]? with
  | none => rfl
  | some =>
    dsimp only
    split_ifs <;> rfl

theorem step_extends (s : State) (ev : Event E) : s.Extends (step s ev) := by
  have hsame : ∀ {s' : State}, s'.shadows = s.shadows → s.Extends s' := by
    intro s' hs i a hi
    exact ⟨a, hs ▸ hi, rfl, rfl, id⟩
  cases ev with
  | setup dirSize disk claimID session ad =>
    simp only [step]
    cases prepareRoute dirSize disk claimID session ad with
    | error => exact State.Extends.refl s
    | ok => exact extends_append rfl
  | register i =>
    simp only [step]
    cases hi : s.shadows[i]? with
    | none => exact State.Extends.refl s
    | some =>
      dsimp only
      split_ifs with hphase
      · exact extends_set hi rfl fun hg => by rw [hphase] at hg; cases hg
      · exact State.Extends.refl s
  | teardown i =>
    simp only [step]
    cases hi : s.shadows[i]? with
    | none => exact State.Extends.refl s
    | some =>
      dsimp only
      split_ifs
      · exact State.Extends.refl s
      · exact extends_set hi rfl fun _ => rfl
  | connect key =>
    simp only [step]
    cases s.routes.lookup key with
    | none => exact State.Extends.refl s
    | some => exact hsame rfl
  | mkdir j | file j | finish j => exact hsame (serve_shadows s j _)

theorem run_extends (s : State) (evs : List (Event E)) : s.Extends (evs.foldl step s) :=
  Runs.foldl_inv (P := s.Extends) (fun _ ev h => h.trans (step_extends _ ev)) (State.Extends.refl s) evs

theorem State.Extends.length_le {s s' : State} (h : s.Extends s') : s.shadows.length ≤ s'.shadows.length := by
  by_contra hlt
  have hin : s'.shadows.length < s.shadows.length := not_le.1 hlt
  obtain ⟨_, ha', -⟩ := h s'.shadows.length _ (getElem?_eq_getElem hin)
  rw [getElem?_eq_none (le_refl _)] at ha'
  cases ha'

/-! ## The steps -/

theorem getElem?_moved (hi : s.shadows[i]? = some a) (a' : Agent) (j : ℕ) :
    (s.shadows.set i a')[j]? = if i = j then some a' else s.shadows[j]? := by
  have hlt : i < s.shadows.length := (List.getElem?_eq_some_iff.1 hi).1
  rw [List.getElem?_set]
  by_cases hij : i = j
  · rw [if_pos hij, if_pos hij, if_pos (hij ▸ hlt)]
  · rw [if_neg hij, if_neg hij]

/-- a shadow that moves on keeps its key -/
theorem Inv.keys_moved (h : Inv s) (hi : s.shadows[i]? = some a) (phase : Phase) (j : ℕ)
    (b : Agent) (hb : (s.shadows.set i { a with phase := phase })[j]? = some b) :
    ∃ now r₁ r₂, b.key = transferKey (j + 1) now r₁ r₂ := by
  rw [getElem?_moved hi] at hb
  split_ifs at hb with hij
  · obtain rfl := Option.some.inj hb
    exact hij ▸ h.keys i a hi
  · exact h.keys j b hb

theorem setup_inv (h : Inv s) {route : Route} (now r₁ r₂ : ℕ) (hlen : s.shadows.length + 1 < 2 ^ 64) :
    Inv { s with
      seq := (s.seq + 1) % 2 ^ 64
      shadows := s.shadows ++ [⟨transferKey ((s.seq + 1) % 2 ^ 64) now r₁ r₂, route, .keyed⟩] } := by
  have hext : s.Extends { s with
      seq := (s.seq + 1) % 2 ^ 64
      shadows := s.shadows ++ [⟨transferKey ((s.seq + 1) % 2 ^ 64) now r₁ r₂, route, .keyed⟩] } := extends_append rfl
  have hseq : (s.seq + 1) % 2 ^ 64 = s.shadows.length + 1 := by rw [h.seq, Nat.mod_eq_of_lt hlen]
  refine ⟨?_, fun i a hi => ?_, fun key route' => ?_, fun c hc => hext.issued (h.conns c hc), fun e he => ?_⟩
  · rw [length_append]
    exact hseq
  · rcases Nat.lt_or_ge i s.shadows.length with hlt | hge
    · rw [getElem?_append_left hlt] at hi
      exact h.keys i a hi
    · rw [getElem?_append_right hge, getElem?_singleton] at hi
      split_ifs at hi with hz
      obtain rfl := Option.some.inj hi
      have hi' : i = s.shadows.length := by omega
      exact ⟨now, r₁, r₂, by rw [hseq, hi']⟩
  · rw [h.routes]
    constructor
    · rintro ⟨i, a, hi, hkey, hphase, hroute⟩
      have hlt : i < s.shadows.length := (List.getElem?_eq_some_iff.1 hi).1
      exact ⟨i, a, by rw [List.getElem?_append_left hlt]; exact hi, hkey, hphase, hroute⟩
    · rintro ⟨i, a, hi, hkey, hphase, hroute⟩
      rcases Nat.lt_or_ge i s.shadows.length with hlt | hge
      · rw [getElem?_append_left hlt] at hi
        exact ⟨i, a, hi, hkey, hphase, hroute⟩
      · -- the new shadow is not registered yet
        rw [getElem?_append_right hge, getElem?_singleton] at hi
        split_ifs at hi
        obtain rfl := Option.some.inj hi
        cases hphase
  · obtain ⟨route', hi, hallowed⟩ := h.effects e he
    exact ⟨route', hext.issued hi, hallowed⟩

/-- a shadow moves on, and the route of its key with it -/
theorem moved_inv (h : Inv s) (hi : s.shadows[i]? = some a) {phase : Phase}
    (hphase : a.phase = .gone → phase = .gone) {routes : KeyMap String Route}
    (hroutes : ∀ key, routes.lookup key =
      if key = a.key then (if phase = .registered then some a.route else none) else s.routes.lookup key) :
    Inv { s with routes := routes, shadows := s.shadows.set i { a with phase := phase } } := by
  have hext : s.Extends { s with routes := routes, shadows := s.shadows.set i { a with phase := phase } } :=
    extends_set hi rfl hphase
  refine ⟨by rw [length_set]; exact h.seq, h.keys_moved hi _, fun key route => ?_,
    fun c hc => hext.issued (h.conns c hc), fun e he => ?_⟩
  · rw [hroutes]
    constructor
    · intro hl
      split_ifs at hl with hkey hreg
      · exact ⟨i, { a with phase := phase }, by rw [getElem?_moved hi, if_pos rfl], hkey.symm, hreg, Option.some.inj hl⟩
      · obtain ⟨j, b, hj, hb, hreg, hroute⟩ := (h.routes key route).1 hl
        have hij : i ≠ j := by
          rintro rfl
          obtain rfl : a = b := Option.some.inj (hi.symm.trans hj)
          exact hkey hb.symm
        exact ⟨j, b, by rw [getElem?_moved hi, if_neg hij]; exact hj, hb, hreg, hroute⟩
    · rintro ⟨j, b, hj, hb, hreg, hroute⟩
      rw [getElem?_moved hi] at hj
      split_ifs at hj with hij
      · obtain rfl := Option.some.inj hj
        rw [if_pos hb.symm, if_pos hreg, ← hroute]
      · -- no other shadow has this key
        have hne : key ≠ a.key := fun he => hij (h.key_injective hi hj (he.symm.trans hb.symm))
        rw [if_neg hne]
        exact (h.routes key route).2 ⟨j, b, hj, hb, hreg, hroute⟩
  · obtain ⟨route, his, hallowed⟩ := h.effects e he
    exact ⟨route, hext.issued his, hallowed⟩

/-- a connection goes on with the route it found -/
theorem serve_inv (h : Inv s) (j : ℕ) {f : Conn → Conn × List Act}
    (hf : ∀ c, (f c).1.key = c.key ∧ (f c).1.route = c.route ∧ ∀ act ∈ (f c).2, act.Allowed c.route) :
    Inv (s.serve j f) := by
  unfold State.serve
  cases hj : s.conns[j]? with
  | none => exact h
  | some c =>
    dsimp only
    split_ifs with hlive
    · have hissued := h.conns c (mem_iff_getElem?.2 ⟨j, hj⟩)
      obtain ⟨hkey, hroute, hacts⟩ := hf c
      refine ⟨h.seq, h.keys, h.routes, fun c' hc' => ?_, fun e he => ?_⟩
      · rcases mem_or_eq_of_mem_set hc' with hc' | rfl
        · exact h.conns c' hc'
        · rw [hkey, hroute]
          exact hissued
      · rcases mem_append.1 he with he | he
        · exact h.effects e he
        · obtain ⟨act, hact, rfl⟩ := mem_map.1 he
          exact ⟨c.route, hissued, hacts act hact⟩
    · exact h

theorem sinkCall_spec (name : String) (files : List String) (stop : Bool) {act : String → Act} {c : Conn}
    (hact : ∀ path, StaysUnder c.route.sink.iwd (.ok path) → (act path).Allowed c.route) :
    (sinkCall E name files stop act c).1.key = c.key ∧ (sinkCall E name files stop act c).1.route = c.route ∧
      ∀ a ∈ (sinkCall E name files stop act c).2, a.Allowed c.route := by
  unfold sinkCall
  have hstays : StaysUnder c.route.sink.iwd (c.route.sink.dest E name) := guardedDest_stays _ _ _
  cases hdest : c.route.sink.dest E name with
  | error => exact ⟨rfl, rfl, fun a ha => by cases ha⟩
  | ok path =>
    rw [hdest] at hstays
    refine ⟨rfl, rfl, fun a ha => ?_⟩
    rw [mem_singleton.1 ha]
    exact hact path hstays

theorem spooledFiles_idem (files : List String) : spooledFiles files = spooledFiles (spooledFiles files) := by
  unfold spooledFiles
  rw [filter_filter]
  simp only [Bool.and_self]

/-- **The step.** -/
theorem step_inv (h : Inv s) (ev : Event E) (hlen : (step s ev).shadows.length < 2 ^ 64) : Inv (step s ev) := by
  cases ev with
  | setup dirSize disk claimID session ad now r₁ r₂ =>
    simp only [step] at hlen ⊢
    cases hprep : prepareRoute dirSize disk claimID session ad with
    | error => exact h
    | ok =>
      rw [hprep] at hlen
      simp only [length_append, length_singleton] at hlen
      exact setup_inv h now r₁ r₂ hlen
  | register i =>
    simp only [step]
    cases hi : s.shadows[i]? with
    | none => exact h
    | some =>
      dsimp only
      split_ifs with hphase
      · refine moved_inv h hi (fun hg => ?_) fun key => ?_
        · rw [hphase] at hg
          cases hg
        · rw [KeyMap.lookup_insert_ite, if_pos rfl]
      · exact h
  | teardown i =>
    simp only [step]
    cases hi : s.shadows[i]? with
    | none => exact h
    | some =>
      dsimp only
      split_ifs
      · exact h
      · refine moved_inv h hi (fun _ => rfl) fun key => ?_
        rw [KeyMap.lookup_erase_ite, if_neg (by decide : ¬ Phase.gone = Phase.registered)]
  | connect key =>
    simp only [step]
    cases hl : s.routes.lookup key with
    | none => exact h
    | some route =>
      refine ⟨h.seq, h.keys, h.routes, fun c hc => ?_, h.effects⟩
      rcases mem_append.1 hc with hc | hc
      · exact h.conns c hc
      · rw [mem_singleton.1 hc]
        obtain ⟨i, a, hi, hkey, -, hroute⟩ := (h.routes key route).1 hl
        exact ⟨a, mem_iff_getElem?.2 ⟨i, hi⟩, hkey, hroute⟩
  | mkdir j name stop => exact serve_inv h j fun c => sinkCall_spec name [] stop fun path hp => hp
  | file j name mode bytes stop => exact serve_inv h j fun c => sinkCall_spec name [name] stop fun path hp => hp
  | finish j =>
    refine serve_inv h j fun c => ⟨rfl, rfl, fun act hact => ?_⟩
    dsimp only at hact
    split_ifs at hact with hrec
    · rw [mem_singleton.1 hact]
      exact ⟨hrec.2, rfl, spooledFiles_idem c.files⟩
    · cases hact

theorem start_inv : Inv start where
  seq := rfl
  keys := fun i a hi => by simp [start] at hi
  routes := fun key route => by simp [start]
  conns := fun c hc => by cases hc
  effects := fun e he => by cases he

theorem run_inv (evs : List (Event E)) (hlen : (evs.foldl step start).shadows.length < 2 ^ 64) :
    Inv (evs.foldl step start) := by
  refine Runs.foldl_inv (P := fun s => s.shadows.length < 2 ^ 64 → Inv s) (fun s ev h hl => ?_) (fun _ =>
    start_inv) evs hlen
  have hle := (step_extends s ev).length_le
  exact step_inv (h (by omega)) ev hl

/-- **Connections are routed.** Whatever the shadows and the starters do and in whatever order, as long as fewer than
2^64 shadows have been set up: no two shadows have one key; a key has a route if and only if the shadow it was issued to
is registered, and the route is that shadow's, so that a starter is sent the input of its own job; the key of a shadow
that is gone never has a route again; and everything done for a connection is done for the shadow its key was issued to:
directories and files under the Iwd of its job, and, if the job is spooled, the report of the received files for its
job. -/
theorem connections_routed (evs : List (Event E)) (hlen : (evs.foldl step start).shadows.length < 2 ^ 64) :
    ((evs.foldl step start).shadows.map Agent.key).Nodup ∧
      (∀ key route, (evs.foldl step start).routes.lookup key = some route ↔
        ∃ a ∈ (evs.foldl step start).shadows, a.key = key ∧ a.phase = .registered ∧ a.route = route) ∧
      (∀ a ∈ (evs.foldl step start).shadows, a.phase = .registered →
        doUpload E (evs.foldl step start) a.key = .ok a.route.plan) ∧
      (∀ pre post, evs = pre ++ post → ∀ a ∈ (pre.foldl step start).shadows, a.phase = .gone →
        (evs.foldl step start).routes.lookup a.key = none) ∧
      ∀ e ∈ (evs.foldl step start).effects, ∃ a ∈ (evs.foldl step start).shadows, a.key = e.key ∧
        e.act.Allowed a.route := by
  have h := run_inv evs hlen
  have hroutes : ∀ key route, (evs.foldl step start).routes.lookup key = some route ↔
      ∃ a ∈ (evs.foldl step start).shadows, a.key = key ∧ a.phase = .registered ∧ a.route = route := by
    intro key route
    rw [h.routes]
    constructor
    · rintro ⟨i, a, hi, hrest⟩
      exact ⟨a, mem_iff_getElem?.2 ⟨i, hi⟩, hrest⟩
    · rintro ⟨a, ha, hrest⟩
      obtain ⟨i, hi⟩ := mem_iff_getElem?.1 ha
      exact ⟨i, a, hi, hrest⟩
  refine ⟨h.keys_nodup, hroutes, fun a ha hreg => ?_, fun pre post hsplit a ha hgone => ?_, fun e he => ?_⟩
  · rw [doUpload, (hroutes a.key a.route).2 ⟨a, ha, rfl, hreg, rfl⟩]
  · obtain ⟨i, hi⟩ := mem_iff_getElem?.1 ha
    have hext : (pre.foldl step start).Extends (evs.foldl step start) := by
      rw [hsplit, foldl_append]
      exact run_extends _ post
    obtain ⟨a', hi', hkey, -, hgone'⟩ := hext i a hi
    by_contra hne
    obtain ⟨route, hroute⟩ := Option.ne_none_iff_exists'.1 hne
    obtain ⟨_, b, hj, hb, hreg, -⟩ := (h.routes _ _).1 hroute
    obtain rfl := h.key_injective hi' hj (hkey.trans hb.symm)
    obtain rfl : a' = b := Option.some.inj (hi'.symm.trans hj)
    rw [hgone' hgone] at hreg
    cases hreg
  · obtain ⟨_, ⟨a, ha, hkey, rfl⟩, hallowed⟩ := h.effects e he
    exact ⟨a, ha, hkey, hallowed⟩

/-- a shadow of alice's spooled job receives a file and ends; then its key is tried again -/
def aliceEvents : List (Event Value) :=
  [.setup 0 ∅ "<c>#1#1" true ((doneAd.setStr .iwd "/s").setStr .submitIwd "/home/alice") 5 7 9, .register 0,
    .connect "1#579", .file 0 "a" 420 [1] true, .teardown 0, .finish 0 true, .connect "1#579"]

theorem alice_routed :
    (aliceEvents.foldl step start).conns.length = 1 ∧ (aliceEvents.foldl step start).effects.length = 2 ∧
      ∀ e ∈ (aliceEvents.foldl step start).effects, ∃ a ∈ (aliceEvents.foldl step start).shadows,
        a.key = e.key ∧ e.act.Allowed a.route :=
  ⟨by decide +kernel, by decide +kernel, (connections_routed aliceEvents (by decide +kernel)).2.2.2.2⟩

end FileServer

end AccessPoint

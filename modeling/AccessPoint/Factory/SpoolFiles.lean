/-
Which files the factory engine reads (internal/qmgmt/handler.go, internal/queue/factory.go, internal/factory/engine.go).

`SetJobFactory` and `SendMaterializeData` choose the paths themselves and stage them on the cluster ad; the engine later
reads whatever paths the committed cluster ad names, with the schedd's own privilege. Nothing stops a client from
setting the two attributes with a plain `SetAttribute`.

- `opened_spooled`: as long as no client request sets one of them to another path, the engine reads only the spooled
  files of the cluster.
- `client_names_file`: a user makes the engine open `/etc/shadow`.
-/
import AccessPoint.Queue.System
import AccessPoint.Qmgmt.Handler
import AccessPoint.Factory.Engine

namespace AccessPoint

open ClassAdLib

section

variable {E : Type} [ClassAdLib E]

/-- a name the engine takes no file from, or one of the two spooled files of the cluster -/
def Spooled (dir : String) (c : ℤ) (f : String) : Prop :=
  f = "" ∨ f = spooledDigestPath dir c ∨ f = spooledItemsPath dir c

/-- no string but those is a value of `e` -/
def OnlySpooled (dir : String) (c : ℤ) (e : E) : Prop := ∀ ad s, eval ad e = .str s → Spooled dir c s

/-- the attributes the engine takes file names from -/
def fileAttrs : List Attr := [.jobMaterializeDigestFile, .jobMaterializeItemsFile]

/-- the file names of a cluster ad are spooled ones -/
def SafeAd (dir : String) (c : ℤ) (ad : Ad E) : Prop := ∀ a ∈ fileAttrs, ∀ e, ad a = some e → OnlySpooled dir c e

/-- the quoted spool paths read back as themselves, as they do for a directory name of printable ASCII characters -/
structure Quotable (E : Type) [ClassAdLib E] (dir : String) : Prop where
  digest : ∀ c, parseExpr (quote E (spooledDigestPath dir c)) = .ok (lit (.str (spooledDigestPath dir c)) : E)
  items : ∀ c, parseExpr (quote E (spooledItemsPath dir c)) = .ok (lit (.str (spooledItemsPath dir c)) : E)

variable {dir : String}

theorem onlySpooled_lit {c : ℤ} {s : String} (h : Spooled dir c s) : OnlySpooled dir c (lit (.str s) : E) := by
  intro ad s' he
  rw [eval_lit] at he
  cases he
  exact h

theorem safeAd_empty (dir : String) (c : ℤ) : SafeAd dir c (Ad.empty : Ad E) := by
  intro a _ e he
  simp at he

/-! ## One transaction -/

namespace Txn

/-- the file names of every staged cluster ad are spooled ones -/
def Safe (dir : String) (t : Txn E) : Prop := ∀ c, SafeAd dir c (t.staged (clusterKey c))

/-- a permitted write of a file attribute of a cluster ad gives a spooled name -/
def SafeSet (dir : String) (q : Queue E) (t : Txn E) (k : JobKey) (name value : String) : Prop :=
  k.proc = -1 → canon E name ∈ fileAttrs → authorize q t k name = .allow →
    ∀ e : E, acceptedExpr name value = some e → OnlySpooled dir k.cluster e

theorem begin_safe (dir : String) (q : Queue E) (user : String) (flag : Bool) :
    Safe dir ((begin q user).setAllowProtectedChanges flag).2 :=
  fun c => safeAd_empty dir c

variable {q : Queue E} {t : Txn E}

theorem step_safe (h : t.Safe dir) (o : Op)
    (ho : ∀ k name value, o = .setAttribute k name value → SafeSet dir q t k name value) :
    ((step (q, t) o).2).Safe dir := by
  intro c a ha e he
  rcases (step_effect (q, t) o).staged_attr (clusterKey c) a with
    hs | hs | ⟨name, value, e', rfl, hn, -, hauth, hst, hacc⟩
  · exact h c a ha e (hs ▸ he)
  · rw [hs] at he
    cases he
  · rw [hst] at he
    cases he
    exact ho _ name value rfl rfl (hn ▸ ha) hauth e hacc

theorem setAttribute_safe (h : t.Safe dir) {k : JobKey} {name value : String}
    (hs : SafeSet dir q t k name value) : ((setAttribute q t k name value).2).Safe dir :=
  step_safe h (.setAttribute k name value) fun k' name' value' heq => by
    obtain ⟨rfl, rfl, rfl⟩ := Op.setAttribute.inj heq
    exact hs

/-- an attribute that is no file name may be set freely -/
theorem safeSet_other {k : JobKey} {name value : String}
    (h : canon E name ∉ fileAttrs) : SafeSet dir q t k name value :=
  fun _ hn _ => absurd hn h

theorem safeSet_path {c : ℤ} {name path : String} (hs : Spooled dir c path)
    (hp : parseExpr (quote E path) = .ok (lit (.str path) : E)) :
    SafeSet dir q t (clusterKey c) name (quote E path) := by
  intro _ _ _ e he
  simp only [acceptedExpr, hp, Option.some.injEq] at he
  exact he ▸ onlySpooled_lit hs

theorem setAll_safe {k : JobKey} {attrs : List (String × String)}
    (h : t.Safe dir) (hs : ∀ t' : Txn E, ∀ p ∈ attrs, SafeSet dir q t' k p.1 p.2) :
    ((Server.setAll q k t attrs).2).Safe dir := by
  induction attrs generalizing t with
  | nil => exact h
  | cons p rest ih =>
    have hstep : ((setAttribute q t k p.1 p.2).2).Safe dir := setAttribute_safe h (hs t p List.mem_cons_self)
    have hrest := ih hstep fun t' p' hp' => hs t' p' (List.mem_cons_of_mem p hp')
    simp only [Server.setAll]
    rcases hr : setAttribute q t k p.1 p.2 with ⟨_ | _, _⟩
    · rw [hr] at hrest; exact hrest
    · rw [hr] at hstep; exact hstep

/-- the bookkeeping of `SetJobFactory` and `SendMaterializeData` -/
theorem factoryAttrs_safe {s : Server E} (hdir : Quotable E s.spoolDir) (c num now : ℤ) (t : Txn E) :
    ∀ p ∈ s.factoryAttrs c num now, SafeSet s.spoolDir s.q t (clusterKey c) p.1 p.2 := by
  intro p hp
  simp only [Server.factoryAttrs, List.mem_cons, List.not_mem_nil, or_false] at hp
  rcases hp with rfl | rfl | rfl | rfl | rfl | rfl
  · exact safeSet_other (by rw [canon_limit]; decide)
  · exact safeSet_path (.inr (.inl rfl)) (hdir.digest c)
  · exact safeSet_other (by rw [canon_nextProcId]; decide)
  · exact safeSet_other (by rw [canon_nextRow]; decide)
  · exact safeSet_other (by rw [canon_paused]; decide)
  · exact safeSet_other (by rw [canon_date]; decide)

theorem itemAttrs_safe {s : Server E} (hdir : Quotable E s.spoolDir) (c : ℤ) (data : String) (t : Txn E) :
    ∀ p ∈ s.itemAttrs c data, SafeSet s.spoolDir s.q t (clusterKey c) p.1 p.2 := by
  intro p hp
  simp only [Server.itemAttrs, List.mem_cons, List.not_mem_nil, or_false] at hp
  rcases hp with rfl | rfl
  · exact safeSet_path (.inr (.inr rfl)) (hdir.items c)
  · exact safeSet_other (by rw [canon_itemCount]; decide)

/-- a commit puts the staged file names on the cluster ads and touches no others -/
theorem commit_safe (hq : ∀ c, Engine.ClusterAd c (SafeAd dir c) q)
    (ht : t.Safe dir) (now : ℤ) (updErr : Option String) (c : ℤ) :
    Engine.ClusterAd c (SafeAd dir c) (commit q t now updErr).2.1 := by
  rcases hc : commit q t now updErr with ⟨_ | e, _, _⟩
  · rw [commit_ok hc]
    intro ad hl
    rw [committed_lookup] at hl
    split_ifs at hl
    cases htouch : t.touches c with
    | false =>
      rw [stagedAtCommit_untouched htouch] at hl
      exact hq c ad hl
    | true =>
      rw [stagedAtCommit_clusterKey htouch] at hl
      simp only [Option.map_some, Option.some_or, Option.some.injEq] at hl
      intro a ha e he
      refine ht c a ha e ?_
      rw [← hl, materialize_apply] at he
      simp only [fileAttrs, List.mem_cons, List.not_mem_nil, or_false] at ha
      rcases ha with rfl | rfl <;> simpa [forced, defaulted] using he
  · rw [(commit_error_keeps hc).1]
    exact hq c

end Txn

/-! ## The server and the engine -/

/-- the QMGMT server with its open connections, and the engine, which works on the server's queue -/
structure Spool (E : Type) where
  server : Server E
  conns : KeyMap ℕ (Conn E)
  engine : Engine E

namespace Spool

theorem turn_safe {s : Server E} (hdir : Quotable E s.spoolDir) {env : Env E} {c : Conn E} {r : Request} {q' : Queue E}
    {t' : Txn E} (h : Server.Turn env s c r q' t') (hq : ∀ c, Engine.ClusterAd c (SafeAd s.spoolDir c) s.q)
    (ht : c.txn.Safe s.spoolDir)
    (hset : ∀ k value name noAck, r = .setAttribute k value name noAck → c.writable = true →
      Txn.SafeSet s.spoolDir s.q c.txn k name value) :
    (∀ c, Engine.ClusterAd c (SafeAd s.spoolDir c) q') ∧ t'.Safe s.spoolDir := by
  cases h with
  | kept => exact ⟨hq, ht⟩
  | reset => exact ⟨hq, Txn.begin_safe _ _ _ _⟩
  | commit => exact ⟨Txn.commit_safe hq ht env.now env.updErr, Txn.begin_safe _ _ _ _⟩
  | set k value name noAck hw => exact ⟨hq, Txn.setAttribute_safe ht (hset k value name noAck rfl hw)⟩
  | setDeferred k value name msg hw => exact ⟨hq, Txn.setAttribute_safe ht (hset k value name true rfl hw)⟩
  | op r o ho =>
    refine ⟨fun c ad hl => hq c ad ?_, Txn.step_safe ht o fun k name value heq => absurd heq (ho k name value)⟩
    rwa [(Txn.step_base (s.q, _) o).coll] at hl
  | factory cluster num =>
    exact ⟨hq, Txn.setAll_safe ht fun t' => Txn.factoryAttrs_safe hdir cluster num env.now t'⟩
  | items cluster data => exact ⟨hq, Txn.setAll_safe ht fun t' => Txn.itemAttrs_safe hdir cluster data t'⟩

/-- a file name `FactoryInfo` takes from a safe cluster ad -/
theorem factoryInfo_spooled {c : ℤ} {q : Queue E} (hq : Engine.ClusterAd c (SafeAd dir c) q)
    {fi : FactoryInfo} (hfi : q.factoryInfo c = some fi) {f : String}
    (hf : f = fi.digestFile ∨ f = fi.itemsFile ∧ f ≠ "") :
    f = spooledDigestPath dir c ∨ f = spooledItemsPath dir c := by
  unfold Queue.factoryInfo at hfi
  cases hg : q.coll.get (clusterKey c) with
  | none => simp [hg] at hfi
  | some ad =>
    have hsafe : SafeAd dir c ad := by
      rw [Store.get_neg _ (by simp)] at hg
      exact hq ad hg
    -- a string value of either attribute is a spooled name
    have hval : ∀ a ∈ fileAttrs, ∀ s, ad.evaluateAttrString a = some s → Spooled dir c s := by
      intro a ha s hs
      obtain ⟨e, he, hev⟩ := (Ad.evaluateAttrString_iff ad a s).1 hs
      exact hsafe a ha e he ad s hev
    simp only [hg] at hfi
    cases hd : ad.evaluateAttrString .jobMaterializeDigestFile with
    | none => simp [hd] at hfi
    | some =>
      simp only [hd] at hfi
      split_ifs at hfi with hne
      cases hfi
      rcases hf with rfl | ⟨rfl, hne'⟩
      · exact (hval _ (by simp [fileAttrs]) _ hd).resolve_left hne
      · cases hi : ad.evaluateAttrString .jobMaterializeItemsFile with
        | none => simp [hi] at hne'
        | some =>
          simp only [hi, Option.getD_some] at hne' ⊢
          exact (hval _ (by simp [fileAttrs]) _ hi).resolve_left hne'

variable [ConfigLib]

inductive Event (E : Type) where
  | connect (i : ℕ) (user : String) (writable : Bool)
  | request (i : ℕ) (env : Env E) (r : Request)
  /-- the engine visits a cluster -/
  | visit (w : Engine.World) (c : ℤ)
  /-- the schedd writes the ad of a job -/
  | write (k : JobKey) (hk : 0 ≤ k.proc) (ad : Ad E)
  | delete (k : JobKey)

def start (opts : Options) (dir : String) : Spool E :=
  ⟨⟨Queue.openNew opts, dir, ∅⟩, ∅, ⟨Queue.openNew opts, ∅, [], [], false⟩⟩

def setQueue (s : Spool E) (q : Queue E) : Spool E := { s with server := { s.server with q := q } }

def step (s : Spool E) : Event E → Spool E
  | .connect i user writable => { s with conns := s.conns.insert i (s.server.connect user writable) }
  | .request i env r =>
    match s.conns.lookup i with
    | none => s
    | some c =>
      match s.server.handle env c r with
      | (server, none, _) => { s with server := server, conns := s.conns.erase i }
      | (server, some c', _) => { s with server := server, conns := s.conns.insert i c' }
  | .visit w c =>
    let e := Engine.materializeCluster w { s.engine with q := s.server.q } c
    { s.setQueue e.q with engine := e }
  | .write k _ ad => s.setQueue { s.server.q with coll := s.server.q.coll.put k ad }
  | .delete k => s.setQueue { s.server.q with coll := s.server.q.coll.delete k }

def run (s : Spool E) (evs : List (Event E)) : Spool E := evs.foldl step s

/-- the event is no permitted `SetAttribute` that gives a cluster ad a file name outside its spooled files -/
def NamesSpooled (s : Spool E) : Event E → Prop
  | .request i _ (.setAttribute k value name _) =>
    ∀ c, s.conns.lookup i = some c → c.writable = true → Txn.SafeSet s.server.spoolDir s.server.q c.txn k name value
  | _ => True

/-- every file name on a cluster ad, staged or stored, is a spooled one, and so is every file the engine has read -/
structure Inv (dir : String) (s : Spool E) : Prop where
  spoolDir : s.server.spoolDir = dir
  stored : ∀ c, Engine.ClusterAd c (SafeAd dir c) s.server.q
  staged : ∀ i c, s.conns.lookup i = some c → c.txn.Safe dir
  opened : ∀ p ∈ s.engine.opened, p.2 = spooledDigestPath dir p.1 ∨ p.2 = spooledItemsPath dir p.1

theorem step_inv (hdir : Quotable E dir) {s : Spool E} (h : s.Inv dir) (ev : Event E)
    (hev : NamesSpooled s ev) : (step s ev).Inv dir := by
  obtain ⟨rfl, hst, hpend, hop⟩ := h
  cases ev with
  | connect =>
    refine ⟨rfl, hst, fun j c hl => ?_, hop⟩
    simp only [step, KeyMap.lookup_insert_ite] at hl
    split_ifs at hl
    · cases hl
      exact Txn.begin_safe _ _ _ _
    · exact hpend j c hl
  | request i env r =>
    cases hl : s.conns.lookup i with
    | none => simp only [step, hl]; exact ⟨rfl, hst, hpend, hop⟩
    | some c =>
      have hturn := turn_safe hdir (s.server.handle_turn env c r) hst (hpend i c hl) (by
        rintro k value name noAck rfl hw
        exact hev c hl hw)
      have hsd := s.server.handle_spoolDir env c r
      rcases hh : s.server.handle env c r with ⟨server, _ | c', _⟩
      · rw [hh] at hturn hsd
        simp only [step, hl, hh]
        refine ⟨hsd, hturn.1, fun j c' hj => ?_, hop⟩
        simp only [KeyMap.lookup_erase_ite] at hj
        split_ifs at hj
        exact hpend j c' hj
      · rw [hh] at hturn hsd
        simp only [step, hl, hh]
        refine ⟨hsd, hturn.1, fun j c'' hj => ?_, hop⟩
        simp only [KeyMap.lookup_insert_ite] at hj
        split_ifs at hj
        · cases hj; exact hturn.2
        · exact hpend j c'' hj
  | visit w c =>
    have hstable : ∀ c', Engine.Stable (Engine.ClusterAd c' (SafeAd s.server.spoolDir c') : Queue E → Prop) := by
      refine fun c' => Engine.clusterAd_stable c' fun ad ad' hsame had a ha e he => had a ha e ?_
      rw [← he, hsame a]
      simp only [fileAttrs, List.mem_cons, List.not_mem_nil, or_false] at ha
      rcases ha with rfl | rfl <;> decide
    refine ⟨rfl, fun c' => ?_, hpend, fun p hp => ?_⟩
    · exact (Engine.materializeCluster_made (hstable c') w { s.engine with q := s.server.q } c (hst c')).1
    · rcases Engine.materializeCluster_opened w { s.engine with q := s.server.q } c p hp with hp | ⟨hc, fi, hfi, hf⟩
      · exact hop p hp
      · rw [hc]
        exact factoryInfo_spooled (hst c) hfi hf
  | write k hk =>
    refine ⟨rfl, fun c ad' hl => hst c ad' ?_, hpend, hop⟩
    have hne : clusterKey c ≠ k := by rintro rfl; simp at hk
    simpa [step, setQueue, Store.lookup_put, hne] using hl
  | delete =>
    refine ⟨rfl, fun c ad' hl => hst c ad' ?_, hpend, hop⟩
    simp only [step, setQueue, Store.lookup_delete] at hl
    split_ifs at hl
    exact hl

/-- **The engine reads only what was spooled for the cluster.** In every run in which no permitted request gives a
cluster ad another file name, every file the engine opens for a cluster is the spooled digest or the spooled items of
that cluster. -/
theorem opened_spooled (opts : Options) {dir : String} (hdir : Quotable E dir) {evs : List (Event E)}
    (hevs : Runs.Meets step NamesSpooled (start opts dir) evs) :
    ∀ p ∈ (run (start opts dir) evs).engine.opened, p.2 = spooledDigestPath dir p.1 ∨
      p.2 = spooledItemsPath dir p.1 := by
  have hstart : (start opts dir : Spool E).Inv dir := by
    refine ⟨rfl, fun c ad hl => ?_, fun i c hl => ?_, fun p hp => ?_⟩
    · simp [start, Queue.openNew] at hl
    · simp [start] at hl
    · simp [start] at hp
  exact (Runs.foldl_inv_of (P := fun s : Spool E => s.Inv dir) (fun s ev hev h =>
    step_inv hdir h ev hev) hstart hevs).opened

end Spool

end

/-! ## Two submissions -/

/-- a store and a file system without errors -/
def quietEnv : Env Value := ⟨100, none, none, none, fun _ => none⟩

/-- any file can be read and holds the digest of one sleeping job -/
def sleepWorld : Engine.World := ⟨fun _ => .ok "executable=/bin/sleep\nqueue 1\n", 101, fun _ => none, true⟩

/-- alice opens a connection, creates cluster 1, sends the requests `rs`, commits, and the engine visits the cluster -/
def aliceSpool (rs : List Request) : List (Spool.Event Value) :=
  .connect 0 "alice@pool" true :: .request 0 quietEnv .newCluster :: rs.map (.request 0 quietEnv) ++
    [.request 0 quietEnv .commitTransaction, .visit sleepWorld 1]

namespace Spool

/-- a factory submitted with the two requests meant for it -/
theorem opened_spooled_factory :
    let rs : List Request := [.setJobFactory 1 2 "executable=/bin/sleep\nqueue 1\n", .sendMaterializeData 1 "a\n",
      .setAttribute (clusterKey 1) "\"/bin/sleep\"" "Cmd" false]
    (run (start poolOptions "/spool") (aliceSpool rs)).engine.opened =
        [(1, "/spool/1/condor_submit.1.digest"), (1, "/spool/1/condor_submit.1.items")] ∧
      ∀ p ∈ (run (start poolOptions "/spool") (aliceSpool rs)).engine.opened,
        p.2 = spooledDigestPath "/spool" p.1 ∨ p.2 = spooledItemsPath "/spool" p.1 := by
  have hdir : Quotable Value "/spool" := ⟨fun c => parseLiteral_quote _, fun c => parseLiteral_quote _⟩
  refine ⟨by decide +kernel, opened_spooled poolOptions hdir ?_⟩
  exact ⟨trivial, trivial, trivial, trivial, fun c _ _ =>
    Txn.safeSet_other (by decide +kernel), trivial, trivial, trivial⟩

/-- a user names a file and the engine opens it -/
theorem client_names_file :
    ∃ p ∈ (run (start poolOptions "/spool")
        (aliceSpool [.setAttribute (clusterKey 1) "\"/etc/shadow\"" "JobMaterializeDigestFile" false])).engine.opened,
      p = (1, "/etc/shadow") ∧ ¬ (p.2 = spooledDigestPath "/spool" p.1 ∨ p.2 = spooledItemsPath "/spool" p.1) := by
  decide +kernel

end Spool

end AccessPoint

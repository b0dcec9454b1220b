/-
The whole way of the output of a spooled job: the starter sends the files to the shadow, which stores them in the
sandbox (shadow/ transfer.go, `iwdSink`), the names are recorded on the ad (cmd/schedd/main.go, the output recorder;
shadow/transfer.go, `doDownload`), and condor_transfer_data sends what the ad lists (internal/spool/spool.go,
`outputSpecs`).

Standard output and error come from the starter under names of their own. They are stored under the names the ad asks
for, they are not recorded, and they ride along with any list.

- `mem_splitFileList`: a plain name is read back from the recorded list, whatever the other names are.
- `output_comes_back`: what the starter hands in is what condor_transfer_data sends, under the name it was stored under.
-/
import AccessPoint.Shadow.Endpoint

namespace AccessPoint

open ClassAdLib Text AccessPoint.Path Spool List

variable {E : Type} [ClassAdLib E]

namespace Shadow

/-- the output recorder of the schedd -/
def recordOutput (files : List String) (ad : Ad E) : Ad E :=
  ad.setStr .spooledOutputFiles (String.ofList (joinWith ',' (files.map String.toList)))

/-! ## The recorded list -/

variable {name : List Char} {names : List (List Char)}

/-- a name without separators is a field of the joined list -/
theorem mem_splitOnP_joinWith {p : Char → Bool} {sep : Char} (hsep : p sep = true)
    (hname : ∀ c ∈ name, p c = false) (hin : name ∈ names) :
    name ∈ (joinWith sep names).splitOnP p := by
  induction names with
  | nil => cases hin
  | cons first names ih =>
    cases names with
    | nil =>
      obtain rfl := mem_singleton.1 hin
      have hone : joinWith sep [name] = name := rfl
      rw [hone, splitOnP_eq_singleton hname]
      exact mem_singleton_self _
    | cons second names =>
      have hcons : joinWith sep (first :: second :: names) = first ++ sep :: joinWith sep (second :: names) := rfl
      rw [hcons, splitOnP_append_cons _ _ hsep, mem_append]
      rcases mem_cons.1 hin with rfl | hin
      · rw [splitOnP_eq_singleton hname]
        exact .inl (mem_singleton_self _)
      · exact .inr (ih hin)

/-- a name that keeps its shape in a list of files -/
structure Listable (name : List Char) : Prop where
  isName : Name name
  plain : Plain name
  comma : ',' ∉ name

theorem Listable.noSep (h : Listable name) : ∀ c ∈ name, isListSep c = false := by
  intro c hc
  by_contra hsep
  rw [Bool.not_eq_false, isListSep, Bool.or_eq_true, beq_iff_eq] at hsep
  rcases hsep with rfl | hsep
  · exact h.comma hc
  · exact absurd (isSpace_of_blankSep c hsep) (Bool.eq_false_iff.1 (h.plain c hc))

theorem mem_splitFileList (h : Listable name) (hin : name ∈ names) :
    name ∈ splitFileList (String.ofList (joinWith ',' names)) := by
  unfold splitFileList
  rw [String.toList_ofList, fieldsFunc_eq]
  have hne : name ≠ [] := h.isName.1.1
  refine mem_filter.2 ⟨mem_map.2 ⟨name, ?_, trimSpace_plain h.plain⟩, decide_eq_true hne⟩
  exact mem_filter.2 ⟨mem_splitOnP_joinWith (by decide) h.noSep hin, decide_eq_true hne⟩

/-- a recorded name is on the list the ad carries from then on -/
theorem recorded_listed (h : Listable name) {files : List String} (hin : name ∈ files.map String.toList)
    (ad : Ad E) (hout : outputList (recordOutput files ad) = some names) : name ∈ names := by
  have hmem := mem_splitFileList h hin
  have hne : String.ofList (joinWith ',' (files.map String.toList)) ≠ "" := by
    intro he
    have hnone : splitFileList "" = [] := by decide
    rw [he, hnone] at hmem
    cases hmem
  have hread : (recordOutput files ad).evaluateAttrString .spooledOutputFiles =
      some (String.ofList (joinWith ',' (files.map String.toList))) :=
    Ad.evaluateAttrString_lit (by rw [recordOutput, Ad.setStr_apply, if_pos rfl])
  have hlist : listAttr (recordOutput files ad) .spooledOutputFiles =
      some (String.ofList (joinWith ',' (files.map String.toList))) := by
    rw [listAttr, hread, Option.filter_some, if_pos (decide_eq_true hne)]
  rw [outputList, hlist] at hout
  obtain rfl := Option.some.inj hout
  exact hmem

/-! ## Standard output and error -/

/-- the streams of a job, with the name the starter gives each -/
inductive Stream where
  | out
  | err
deriving DecidableEq, Repr

def Stream.attr : Stream → Attr
  | .out => .out
  | .err => .err

def Stream.remapName : Stream → String
  | .out => "_condor_stdout"
  | .err => "_condor_stderr"

theorem remapStream_other (ad : Ad E) (a : Attr) {remapName wire : String} (h : wire ≠ remapName)
    (remap : KeyMap String String) :
    (remapStream ad a remapName remap).lookup wire = remap.lookup wire := by
  unfold remapStream
  dsimp only
  split_ifs
  · exact AList.lookup_insert_ne h
  · rfl

variable {ad : Ad E} {file : String}

theorem remapStream_own {a : Attr} (hfile : ad.evaluateAttrString a = some file) (hne : file ≠ "")
    (hnull : file ≠ "/dev/null") {remapName : String} {remap : KeyMap String String}
    (hnone : remap.lookup remapName = none) :
    ((remapStream ad a remapName remap).lookup remapName).getD remapName = file := by
  unfold remapStream
  rw [hfile, Option.getD_some]
  dsimp only
  by_cases hsame : file = remapName
  · rw [if_neg fun hc => hc.2.1 hsame, hnone, hsame]
    rfl
  · rw [if_pos ⟨hne, hsame, hnull⟩, AList.lookup_insert]
    rfl

variable {sink : IwdSink}

theorem buildOutputSink_ok (h : buildOutputSink ad = .ok sink) :
    sink.remap = remapStream ad .err "_condor_stderr" (remapStream ad .out "_condor_stdout" ∅) := by
  unfold buildOutputSink at h
  dsimp only at h
  split_ifs at h
  cases hacc : jobAccount ad with
  | error => rw [hacc] at h; cases h
  | ok =>
    rw [hacc] at h
    exact (congrArg IwdSink.remap (Except.ok.inj h)).symm

/-- any other file keeps its name -/
theorem remap_other (h : buildOutputSink ad = .ok sink) {wire : String}
    (hout : wire ≠ "_condor_stdout") (herr : wire ≠ "_condor_stderr") : (sink.remap.lookup wire).getD wire = wire := by
  rw [buildOutputSink_ok h, remapStream_other ad .err herr, remapStream_other ad .out hout]
  rfl

/-- a stream gets the name the ad asks for -/
theorem remap_stream (h : buildOutputSink ad = .ok sink) (st : Stream)
    (hfile : ad.evaluateAttrString st.attr = some file) (hne : file ≠ "") (hnull : file ≠ "/dev/null") :
    (sink.remap.lookup st.remapName).getD st.remapName = file := by
  rw [buildOutputSink_ok h]
  cases st with
  | out =>
    rw [Stream.remapName, remapStream_other ad .err (by decide)]
    exact remapStream_own hfile hne hnull rfl
  | err =>
    refine remapStream_own hfile hne hnull ?_
    rw [remapStream_other ad .out (by decide)]
    rfl

/-- a stream rides along with any list -/
theorem stream_rides (files : List String) (st : Stream) (hfile : ad st.attr = some (lit (.str file)))
    (hnull : isNullFile E file = false) (hrel : isAbs file.toList = false) :
    file.toList ∈ rideAlong (recordOutput files ad) := by
  have hsame : recordOutput files ad st.attr = some (lit (.str file)) := by
    rw [recordOutput, Ad.setStr_apply, if_neg (by cases st <;> decide)]
    exact hfile
  refine mem_filterMap.2 ⟨st.attr, by cases st <;> decide, ?_⟩
  rw [Ad.evaluateAttrString_lit hsame, Option.filter_some, if_pos (by rw [hnull, hrel]; rfl)]
  rfl

/-- what the starter sends that condor_transfer_data is to send on: a file with a name of the list, or a stream that
goes to a file of the sandbox -/
def Wanted (ad : Ad E) (files : List String) (wire : String) : Prop :=
  (Listable wire.toList ∧ wire ∈ spooledFiles files) ∨ ∃ (st : Stream) (file : String), wire = st.remapName ∧
    ad st.attr = some (lit (.str file)) ∧ isNullFile E file = false ∧ isAbs file.toList = false ∧
      clean file.toList ≠ ['.']

/-- **The output comes back.** A file the starter of a spooled job hands in, be it listed by its name or a standard
stream, is among those condor_transfer_data sends once the received names are recorded: under the name it was stored
under and with its bytes, until an operation writes to the same place. -/
theorem output_comes_back (spoolDir : String) (disk : Spool.Disk) (k : JobKey) (ad : Ad E) (sink : IwdSink)
    (hsink : buildOutputSink ad = .ok sink) (hiwd : sink.iwd = sandboxDir spoolDir k) (wire path : String) (mode : ℤ)
    (bytes : List UInt8) (after : List Op) (files : List String) (hdest : sink.dest E wire = .ok path)
    (hstored : (Tree.store disk (locate path) (received mode bytes)).isSome)
    (hafter : ∀ op ∈ after, op.target E spoolDir ≠ some (locate path)) (hwanted : Wanted ad files wire) :
    ∃ spec ∈ (outputSpecs
      (performAll E spoolDir disk (.file (.output k sink.remap sink.owner) wire mode bytes :: after))
        (recordOutput (spooledFiles files) ad) (sandboxDir spoolDir k)).1,
      spec.wireName = String.ofList (clean ((sink.remap.lookup wire).getD wire).toList) ∧ spec.size = bytes.length ∧
        (Tree.fileAt (performAll E spoolDir disk (.file (.output k sink.remap sink.owner) wire mode bytes :: after))
          (locate spec.source)).map File.bytes = some bytes := by
  have hdest' : (Receiver.output k sink.remap sink.owner).dest E spoolDir wire = .ok path := by
    rw [← hdest, Receiver.dest, ← hiwd]
  obtain ⟨hfile, hdir⟩ := stored_stays hdest' hstored hafter
  have hguard : guardedDest E "shadow: refusing output path outside sandbox: " (sandboxDir spoolDir k)
      ((sink.remap.lookup wire).getD wire) = .ok path := hdest'
  -- the name it is stored under is on the list, or rides along
  have hsent : clean ((sink.remap.lookup wire).getD wire).toList ≠ ['.'] ∧
      ∀ names, outputList (recordOutput (spooledFiles files) ad) = some names →
        ((sink.remap.lookup wire).getD wire).toList ∈ names ++ rideAlong (recordOutput (spooledFiles files) ad) := by
    rcases hwanted with ⟨hlist, hin⟩ | ⟨st, file, rfl, hattr, hnull, hrel, hdot⟩
    · have hkept := (mem_filter.1 hin).2
      simp only [Bool.not_eq_true', Bool.or_eq_false_iff, beq_eq_false_iff_ne, ne_eq] at hkept
      rw [remap_other hsink hkept.1.1 hkept.1.2, (stays_name hlist.isName).cleaned]
      refine ⟨hlist.isName.1.2.1, fun names hout => mem_append_left _ ?_⟩
      exact recorded_listed hlist (mem_map_of_mem hin) ad hout
    · have hne : file ≠ "" ∧ file ≠ "/dev/null" := by
        rw [isNullFile, Bool.or_eq_false_iff, Bool.or_eq_false_iff, decide_eq_false_iff_not,
          decide_eq_false_iff_not] at hnull
        exact hnull.1
      rw [remap_stream hsink st (Ad.evaluateAttrString_lit hattr) hne.1 hne.2]
      exact ⟨hdot, fun names _ => mem_append_right _ (stream_rides _ st hattr hnull hrel)⟩
  refine ⟨_, mem_outputSpecs hguard hsent.1 hfile hdir hsent.2, rfl,
    congrArg length (received_bytes mode bytes _), ?_⟩
  rw [fileSpec_source hguard, hfile, Option.map_some, received_bytes]

/-- alice's spooled job, whose standard output is to be `out` -/
def streamAd : Ad Value := (doneAd.setStr .iwd (sandboxDir "/s" ⟨1, 0⟩)).setStr .out "out"

def streamSink : IwdSink := (buildOutputSink streamAd).toOption.get (by decide +kernel)

theorem streamSink_eq : buildOutputSink streamAd = .ok streamSink := by
  have hget : ∀ (x : Except String IwdSink) (h : x.toOption.isSome = true), x = .ok (x.toOption.get h) := by
    intro x h
    cases x with
    | error => cases h
    | ok => rfl
  exact hget _ _

theorem stream_back :
    ∃ spec ∈ (outputSpecs
      (performAll Value "/s" ∅ [.file (.output ⟨1, 0⟩ streamSink.remap streamSink.owner) "_condor_stdout" 0 [1]])
        (recordOutput (spooledFiles ["_condor_stdout", "a"]) streamAd) (sandboxDir "/s" ⟨1, 0⟩)).1,
      spec.wireName = "out" ∧ spec.size = 1 := by
  obtain ⟨spec, hin, hwire, hsize, -⟩ :=
    output_comes_back "/s" ∅ ⟨1, 0⟩ streamAd streamSink streamSink_eq (by decide +kernel)
    "_condor_stdout" "/s/1/0/cluster1.proc0.subproc0/out" 0 [1] [] ["_condor_stdout", "a"] (by decide +kernel)
      (by decide +kernel)
    (fun op hop => by cases hop) (.inr ⟨.out, "out", rfl, rfl, by decide +kernel, by decide, by decide⟩)
  exact ⟨spec, hin, hwire.trans (by decide +kernel), hsize⟩

end Shadow

end AccessPoint

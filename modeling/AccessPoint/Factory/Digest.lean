/-
The submit digest of a job factory (internal/factory/digest.go, materialize.go, attrmap.go, items.go, spool.go).

A digest is a list of assignments followed by a Queue statement. `parseDigest` splits and parses it,
`Digest.materialize` turns it and one row of item data into the attributes of one proc. The submit-language parser and
its macro expansion are a parameter (`ConfigLib`): the configuration is a map from names to raw values, and reading a
name expands its raw value against the current map.

- `applyAssign_eq`: an assignment sets at most one attribute (`Assign.target`), to one expression (`Assign.exprIn`).
- `materialize_apply`: each attribute of a materialized ad comes from the last assignment that targets it.
-/
import AccessPoint.ClassAd
import AccessPoint.Core.KeyMap
import AccessPoint.Core.Text

namespace AccessPoint

open ClassAdLib

/-- one digest assignment, its value unexpanded; `expr` for `+Attr` and `MY.Attr` lines -/
structure Assign where
  key : String
  value : String
  expr : Bool
deriving DecidableEq, Repr

/-- the submit-language package -/
class ConfigLib where
  /-- `config.Parse`: the assignments of a text in order, or the parse error -/
  parse : String → Except String (List Assign)
  /-- a raw value with its references expanded against the map -/
  expand : (String → Option String) → String → String
  /-- `strings.ToUpper` -/
  toUpper : String → String

/-- a configuration: name ↦ raw value -/
abbrev Config := KeyMap String String

/-- `Config.Get`; the empty string for a name that is not set -/
def Config.get [ConfigLib] (cfg : Config) (key : String) : String :=
  match cfg.lookup key with
  | none => ""
  | some raw => ConfigLib.expand cfg.lookup raw

structure Digest where
  assigns : List Assign
  queueNum : ℤ
  varNames : List String
  itemsFile : String
  slice : String
  cfg : Config
  queueNum_pos : 1 ≤ queueNum

/-! ## The Queue statement -/

/-- the line is a Queue statement -/
def isQueueLine (t : List Char) : Bool :=
  Text.startsWithFold "queue".toList t &&
    match t.drop 5 with
    | [] => true
    | c :: _ => c = ' ' || c = '\t'

/-- the body and the trailing Queue statement, if the last non-empty line is one -/
def splitQueueStatement (text : List Char) : List Char × List Char :=
  let rec go : List (List Char) → List Char × List Char
    | [] => (text, [])
    | line :: before =>
      let t := Text.trimSpace line
      if t = [] then go before
      else if isQueueLine t then (Text.joinWith '\n' before.reverse, t)
      else (text, [])
  go (Text.splitAt '\n' text).reverse

def isBlank (c : Char) : Bool := c = ' ' || c = '\t'

/-- the index of a whole-word occurrence of `w`; `i` is the position of the rest and `prev` the character before it -/
def indexWordFrom (w : List Char) (i : ℕ) (prev : Option Char) : List Char → Option ℕ
  | [] => none
  | c :: cs =>
    if w <+: c :: cs ∧ prev.all isBlank ∧ ((c :: cs).drop w.length).head?.all isBlank then some i
    else indexWordFrom w (i + 1) (some c) cs

/-- `indexWord`: the first occurrence surrounded by blanks or ends; `w` is a word without repeated borders, so skipping
an occurrence that is no whole word cannot skip one that is -/
def indexWord (s w : List Char) : Option ℕ := indexWordFrom w 0 none s

/-- what a Queue statement says -/
structure QueueStmt where
  num : ℤ
  vars : List (List Char)
  itemsFile : List Char
  slice : List Char
deriving DecidableEq, Repr

/-- the `from` clause: an optional slice and the file name -/
def parseFrom (fromPart : List Char) : List Char × List Char :=
  match fromPart with
  | '[' :: _ =>
    match fromPart.findIdx? (· = ']') with
    | some i => (fromPart.take (i + 1), Text.trimSpace (fromPart.drop (i + 1)))
    | none => ([], fromPart)
  | _ => ([], fromPart)

/-- the optional leading count, and what follows it -/
def queueCount (rest : List Char) : ℤ × List Char :=
  let first := rest.takeWhile fun c => !isBlank c
  match Text.atoi first with
  | some n => (n, Text.trimSpace (rest.drop first.length))
  | none => (1, rest)

/-- the variables part, the slice and the items file of what follows the count -/
def queueClauses (rest : List Char) : List Char × List Char × List Char :=
  match indexWord rest "from".toList with
  | some i =>
    let (slice, file) := parseFrom (Text.trimSpace (rest.drop (i + 4)))
    (Text.trimSpace (rest.take i), slice, file)
  | none =>
    -- inline items are not carried in the digest; only the variables are taken
    match indexWord rest "in".toList with
    | some i => (Text.trimSpace (rest.take i), [], [])
    | none =>
      match indexWord rest "matching".toList with
      | some i => (Text.trimSpace (rest.take i), [], [])
      | none => (rest, [], [])

def parseQueueLine (line : List Char) : QueueStmt :=
  let (num, rest) := queueCount (Text.trimSpace (line.drop 5))
  let (varsPart, slice, file) := queueClauses rest
  { num := if num < 1 then 1 else num
    vars := Text.fieldsFunc (fun c => c = ',' || isBlank c) varsPart
    itemsFile := file
    slice := slice }

theorem parseQueueLine_num (line : List Char) : 1 ≤ (parseQueueLine line).num := by
  unfold parseQueueLine
  dsimp only
  split_ifs with h
  · exact le_refl _
  · omega

section

variable [ConfigLib]

/-- `cfg.Set` -/
def Config.set (cfg : Config) (name value : String) : Config := cfg.insert name value

def parseDigest (text : String) : Except String Digest :=
  let (body, queueLine) := splitQueueStatement text.toList
  let stmt := if queueLine = [] then { num := 1, vars := [], itemsFile := [], slice := [] }
    else parseQueueLine queueLine
  match ConfigLib.parse (String.ofList body) with
  | .error e => .error ("parsing digest body: " ++ e)
  | .ok assigns =>
    .ok {
      assigns := assigns
      queueNum := stmt.num
      varNames := stmt.vars.map String.ofList
      itemsFile := String.ofList stmt.itemsFile
      slice := String.ofList stmt.slice
      cfg := assigns.foldl (fun cfg a => Config.set cfg a.key a.value) ∅
      queueNum_pos := by
        simp only [stmt]
        split_ifs
        · exact le_refl _
        · exact parseQueueLine_num queueLine }

end

/-! ## Item data and spool paths -/

/-- `ParseItems`: one row a line, a trailing carriage return stripped, blank lines dropped -/
def parseItems (data : String) : List String :=
  (Text.splitAt '\n' data.toList).filterMap fun line =>
    let line := if line.getLast? = some '\r' then line.dropLast else line
    if line = [] then none else some (String.ofList line)

/-- `ItemSeparator`, the ASCII unit separator -/
def itemSeparator : Char := '\x1f'

def splitRow (row : String) (nvars : ℕ) : List String :=
  let cs := row.toList
  if cs = [] then []
  else if itemSeparator ∈ cs then (Text.splitAt itemSeparator cs).map String.ofList
  else if nvars ≤ 1 then [row]
  else (Text.fields cs).map String.ofList

/-- `filepath.Join` of the spool directory (taken as clean), the bucket and the file name -/
def spooledPath (spoolDir : String) (cluster : ℤ) (ext : String) : String :=
  spoolDir ++ "/" ++ toString (cluster.tmod 10000) ++ "/condor_submit." ++ toString cluster ++ ext

def spooledDigestPath (spoolDir : String) (cluster : ℤ) : String := spooledPath spoolDir cluster ".digest"

def spooledItemsPath (spoolDir : String) (cluster : ℤ) : String := spooledPath spoolDir cluster ".items"

/-! ## Materialization -/

/-- how a digest value maps onto an attribute -/
inductive AttrKind where
  | string
  | expr
  /-- `Args`, or `Arguments` for a quoted value -/
  | args
  /-- `Env`, or `Environment` for a quoted value -/
  | env
deriving DecidableEq, Repr

/-- the submit commands a digest may carry; for `args` and `env` the attribute depends on the value's form -/
def attrMap : List (String × Attr × AttrKind) :=
  [("executable", .cmd, .string), ("arguments", .args, .args), ("environment", .env, .env), ("output", .out, .string),
    ("error", .err, .string), ("input", .inFile, .string), ("log", .userLog, .string), ("initialdir", .iwd, .string),
    ("initial_dir", .iwd, .string), ("iwd", .iwd, .string), ("transfer_input_files", .transferInput, .string),
    ("transfer_output_files", .transferOutput, .string), ("transfer_output_remaps", .transferOutputRemaps, .string),
    ("request_cpus", .requestCpus, .expr), ("request_memory", .requestMemory, .expr),
    ("request_disk", .requestDisk, .expr), ("request_gpus", .requestGpus, .expr), ("priority", .jobPrio, .expr),
    ("job_lease_duration", .jobLeaseDuration, .expr), ("batch_name", .jobBatchName, .string)]

/-- a raw value in double quotes -/
def isQuoted (raw : String) : Bool :=
  let cs := Text.trimSpace raw.toList
  2 ≤ cs.length && cs.head? = some '"' && cs.getLast? = some '"'

/-- one layer of double quotes stripped, doubled quotes undone -/
def unquote (s : String) : String :=
  let cs := Text.trimSpace s.toList
  let cs := if 2 ≤ cs.length ∧ cs.head? = some '"' ∧ cs.getLast? = some '"' then (cs.drop 1).dropLast else cs
  String.ofList (Text.undoubleQuotes cs)

/-- the attribute name of a `+Attr` or `MY.Attr` key -/
def exprName (key : String) : String :=
  let cs := key.toList
  let cs := if cs.head? = some '+' then cs.drop 1 else cs
  String.ofList (if Text.startsWithFold "my.".toList cs then cs.drop 3 else cs)

variable {E : Type} [ClassAdLib E] [ConfigLib]

/-- `setExpr`'s value: parsed, or the text itself when it does not parse -/
def exprOrString (val : String) : E :=
  match (parseExpr val : Except String E) with
  | .ok e => e
  | .error _ => lit (.str val)

/-- the key is a `FACTORY.` directive -/
def Assign.isFactory (a : Assign) : Bool := "FACTORY.".toList <+: (ConfigLib.toUpper a.key).toList

/-- the key names a ClassAd attribute itself -/
def Assign.isExpr (E : Type) [ClassAdLib E] (a : Assign) : Bool :=
  a.expr || a.key.toList.head? = some '+' || "my.".toList <+: (toLower E a.key).toList

def applyAssign (cfg : Config) (ad : Ad E) (a : Assign) : Ad E :=
  if a.isFactory then
    -- any other directive is satisfied by the cluster ad through chaining
    if toLower E (String.ofList (a.key.toList.drop 8)) = "iwd" then ad.setStr .iwd (cfg.get a.key) else ad
  else if a.isExpr E then ad.insertExpr (canon E (exprName a.key)) (exprOrString (cfg.get a.key))
  else
    match attrMap.lookup (toLower E a.key) with
    | none => ad
    | some (attr, kind) =>
      let val := cfg.get a.key
      match kind with
      | .args => if isQuoted a.value then ad.setStr .arguments (unquote val) else ad.setStr .args val
      | .env => if isQuoted a.value then ad.setStr .environment (unquote val) else ad.setStr .env val
      | .expr => ad.insertExpr attr (exprOrString val)
      | .string => ad.setStr attr val

/-- `setVar`: under the name and under its lower-case form -/
def setVar (E : Type) [ClassAdLib E] (cfg : Config) (name value : String) : Config :=
  let cfg := cfg.set name value
  let l := toLower E name
  if l ≠ name then cfg.set l value else cfg

def Digest.rowIndex (d : Digest) (proc : ℤ) : ℤ := proc.tdiv d.queueNum

def Digest.step (d : Digest) (proc : ℤ) : ℤ := proc.tmod d.queueNum

/-- the configuration with the live variables of one proc set -/
def Digest.withVars (E : Type) [ClassAdLib E] (d : Digest) (cluster proc : ℤ) (rawRow : String) : Config :=
  let live : List (String × String) :=
    [("Cluster", toString cluster), ("ClusterId", toString cluster), ("Process", toString proc),
      ("ProcId", toString proc), ("Node", toString proc), ("Step", toString (d.step proc)),
      ("Row", toString (d.rowIndex proc)), ("ItemIndex", toString (d.rowIndex proc))]
  let fields := splitRow rawRow d.varNames.length
  let item : List (String × String) :=
    if d.varNames = [] then [("Item", rawRow)]
    else ("Item", "") :: d.varNames.zipIdx.map fun (name, i) => (name, fields.getD i "")
  (live ++ item).foldl (fun cfg v => setVar E cfg v.1 v.2) d.cfg

/-- `Materialize`: the override attributes of one proc, and the digest with its variables left set -/
def Digest.materialize (E : Type) [ClassAdLib E] (d : Digest) (cluster proc : ℤ) (rawRow : String) : Ad E × Digest :=
  let cfg := d.withVars E cluster proc rawRow
  (d.assigns.foldl (applyAssign cfg) Ad.empty, { d with cfg := cfg })

/-- the attribute an assignment sets, if any -/
def Assign.target (E : Type) [ClassAdLib E] (a : Assign) : Option Attr :=
  if a.isFactory then
    if toLower E (String.ofList (a.key.toList.drop 8)) = "iwd" then some .iwd else none
  else if a.isExpr E then some (canon E (exprName a.key))
  else
    match attrMap.lookup (toLower E a.key) with
    | none => none
    | some (_, .args) => some (if isQuoted a.value then .arguments else .args)
    | some (_, .env) => some (if isQuoted a.value then .environment else .env)
    | some (attr, _) => some attr

/-- the expression an assignment sets its attribute to -/
def Assign.exprIn (cfg : Config) (a : Assign) : E :=
  let val := cfg.get a.key
  if a.isFactory then lit (.str val)
  else if a.isExpr E then exprOrString val
  else
    match attrMap.lookup (toLower E a.key) with
    | some (_, .args) => lit (.str (if isQuoted a.value then unquote val else val))
    | some (_, .env) => lit (.str (if isQuoted a.value then unquote val else val))
    | some (_, .expr) => exprOrString val
    | _ => lit (.str val)

/-- **One assignment sets at most one attribute.** -/
theorem applyAssign_eq (cfg : Config) (ad : Ad E) (a : Assign) :
    applyAssign cfg ad a =
      match a.target E with
      | none => ad
      | some x => ad.insertExpr x (a.exprIn cfg) := by
  unfold applyAssign Assign.target Assign.exprIn
  by_cases hf : a.isFactory = true
  · simp only [hf, if_true]
    by_cases hi : toLower E (String.ofList (a.key.toList.drop 8)) = "iwd"
    · simp only [hi, if_true]; rfl
    · simp only [hi, if_false]
  · simp only [hf, Bool.false_eq_true, if_false]
    by_cases he : a.isExpr E = true
    · simp only [he, if_true]
    · simp only [he, Bool.false_eq_true, if_false]
      rcases attrMap.lookup (toLower E a.key) with _ | ⟨attr, kind⟩
      · rfl
      · cases kind with
        | string | expr => rfl
        | args => by_cases hq : isQuoted a.value = true <;>
          simp only [hq, if_true, Bool.false_eq_true, if_false] <;> rfl
        | env => by_cases hq : isQuoted a.value = true <;> simp only [hq, if_true, Bool.false_eq_true, if_false] <;> rfl

/-- the last assignment that sets `x` -/
def Digest.lastFor (E : Type) [ClassAdLib E] (d : Digest) (x : Attr) : Option Assign :=
  (d.assigns.filter fun a => a.target E = some x).getLast?

theorem foldl_applyAssign (cfg : Config) (assigns : List Assign) (x : Attr) :
    assigns.foldl (applyAssign cfg) (Ad.empty : Ad E) x =
      ((assigns.filter fun a => a.target E = some x).getLast?).map (Assign.exprIn cfg) := by
  induction assigns using List.reverseRecOn with
  | nil => rfl
  | append_singleton assigns a ih =>
    rw [List.foldl_append, List.foldl_cons, List.foldl_nil, applyAssign_eq, List.filter_append]
    cases ht : a.target E with
    | none => simp [ih, ht]
    | some y =>
      by_cases hy : y = x
      · subst hy
        simp [ht, Ad.insertExpr_apply]
      · simp [ht, hy, Ne.symm hy, Ad.insertExpr_apply, ih]

/-- **An attribute of a materialized proc comes from the last assignment that targets it.** -/
theorem Digest.materialize_apply (d : Digest) (cluster proc : ℤ) (rawRow : String) (x : Attr) :
    (d.materialize E cluster proc rawRow).1 x =
      (d.lastFor E x).map (Assign.exprIn (d.withVars E cluster proc rawRow)) :=
  foldl_applyAssign _ d.assigns x

/-! ## A submit language of plain lines -/

/-- one `key=value` line -/
def plainAssign (line : List Char) : Option Assign :=
  let key := Text.trimSpace (line.takeWhile (· ≠ '='))
  match line.dropWhile (· ≠ '=') with
  | [] => none
  | _ :: value => some ⟨String.ofList key, String.ofList (Text.trimSpace value), key.head? = some '+'⟩

/-- assignments one a line and no references, enough to run the model on a concrete digest -/
instance : ConfigLib where
  parse := fun text => .ok ((Text.splitAt '\n' text.toList).filterMap plainAssign)
  expand := fun _ raw => raw
  toUpper := String.toUpper

end AccessPoint

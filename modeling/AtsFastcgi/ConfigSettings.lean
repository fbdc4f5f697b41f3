/-
What a configuration file says: its settings, in order.  The loops store one
setting after the other, which leaves in each field the last setting of its key
and for each parameter the first one.
-/
import AtsFastcgi.Lib.Assignments
import AtsFastcgi.Config

namespace AtsFastcgi

/-! ### The settings of a file -/

namespace LineFormat

variable {K : Type} (format : LineFormat K)

/-- The setting that a buffer holds. -/
def setting (buf : Bytes) : Option (K × Bytes) :=
  match format.parseLine buf with
  | .setting key tok => some (key, tok)
  | .ignored | .reported _ | .nullToken => none

def settings (pieces : List Bytes) : List (K × Bytes) :=
  pieces.filterMap format.setting

/-- Where a key is looked up it is there. -/
def KeysPresent (pieces : List Bytes) : Prop :=
  ∀ buf ∈ pieces, format.parseLine buf ≠ .nullToken

/-- A loop that gets to its end has stored the settings. -/
theorem foldlM_line_eq_some {C : Type} {store : C → K → Bytes → Option C}
    {config config' : C} {pieces : List Bytes} :
    pieces.foldlM (format.line store) config = some config' ↔
      format.KeysPresent pieces ∧
        (format.settings pieces).foldlM (fun c p => store c p.1 p.2) config =
          some config' := by
  induction pieces generalizing config with
  | nil => simp [KeysPresent, settings]
  | cons buf rest ih =>
      have hkeys : format.KeysPresent (buf :: rest) ↔
          format.parseLine buf ≠ .nullToken ∧ format.KeysPresent rest :=
        List.forall_mem_cons
      rw [List.foldlM_cons, hkeys, settings, List.filterMap_cons, line, setting]
      cases format.parseLine buf with
      | nullToken => simp
      | ignored => simp [ih, settings]
      | reported message => simp [ih, settings]
      | setting key tok =>
          simp only [List.foldlM_cons, Option.bind_eq_bind,
            Option.bind_eq_some_iff, ih, ne_eq, reduceCtorEq, not_false_eq_true,
            true_and, settings]
          constructor
          · rintro ⟨c, hc, hpresent, hrest⟩
            exact ⟨hpresent, c, hc, hrest⟩
          · rintro ⟨hpresent, c, hc, hrest⟩
            exact ⟨c, hc, hpresent, hrest⟩

end LineFormat

/-! ### Parameter files -/

/-- The settings of a parameter file; one that cannot be opened has none. -/
def fileSettings (files : Files) (fn : Bytes) : List (FcgiParamKey × Bytes) :=
  match files fn with
  | none => []
  | some text => paramFormat.settings (fileReader.reads text)

/-- No line of a parameter file lacks its key. -/
def ParamsPresent (files : Files) (fn : Bytes) : Prop :=
  ∀ text, files fn = some text →
    paramFormat.KeysPresent (fileReader.reads text)

/-- Insert settings in order, where there is no entry yet. -/
def insertParams (params : FcgiParams) (S : List (FcgiParamKey × Bytes)) :
    FcgiParams :=
  S.foldl (fun m p => m.insertIfNew p.1.name (paramText p.2)) params

theorem foldlM_insertParam (params : FcgiParams)
    (S : List (FcgiParamKey × Bytes)) :
    S.foldlM (fun m p => insertParam m p.1 p.2) params =
      some (insertParams params S) :=
  List.foldlM_pure (m := Option)

theorem initFcgiParam_eq_some {files : Files} {fn : Bytes}
    {params params' : FcgiParams} :
    initFcgiParam files fn params = some params' ↔
      ParamsPresent files fn ∧
        insertParams params (fileSettings files fn) = params' := by
  unfold initFcgiParam ParamsPresent fileSettings
  cases files fn with
  | none => simp [insertParams]
  | some text =>
      simp [LineFormat.foldlM_line_eq_some, foldlM_insertParam]

/-- A parameter is inserted under the name that is looked up. -/
theorem fcgiParamConfigFind_name (key : FcgiParamKey) :
    fcgiParamConfigFind key.name (-1) = some (key, .string) := by
  cases key <;> decide +kernel

theorem FcgiParamKey.name_inj {key other : FcgiParamKey} :
    key.name = other.name ↔ key = other := by
  constructor
  · intro heq
    have hfind := fcgiParamConfigFind_name key
    rw [heq, fcgiParamConfigFind_name other] at hfind
    exact (congrArg Prod.fst (Option.some.inj hfind)).symm
  · exact congrArg FcgiParamKey.name

theorem getElem?_insertIfNew (params : FcgiParams) (name other tok : Bytes) :
    (params.insertIfNew name tok)[other]? =
      params[other]?.or (if name = other then some tok else none) := by
  rw [Std.ExtTreeMap.getElem?_insertIfNew]
  by_cases heq : name = other
  · subst heq
    by_cases hin : name ∈ params
    · simp [hin]
    · simp [hin]
  · simp [heq]

/-- An entry that is there stays, and of several settings the first counts. -/
theorem getElem?_insertParams (params : FcgiParams)
    (S : List (FcgiParamKey × Bytes)) (key : FcgiParamKey) :
    (insertParams params S)[key.name]? =
      params[key.name]?.or ((Assignments.first S key).map paramText) := by
  induction S generalizing params with
  | nil => simp [insertParams, Assignments.first]
  | cons p rest ih =>
      have hmap : (Assignments.first (p :: rest) key).map paramText =
          (if p.1.name = key.name then some (paramText p.2) else none).or
            ((Assignments.first rest key).map paramText) := by
        simp only [Assignments.first, FcgiParamKey.name_inj]
        split <;> rfl
      rw [hmap, ← Option.or_assoc, ← getElem?_insertIfNew]
      exact ih (params.insertIfNew p.1.name (paramText p.2))

/-- The other entries stay. -/
theorem getElem?_insertParams_other (params : FcgiParams)
    (S : List (FcgiParamKey × Bytes)) {name : Bytes}
    (hname : ∀ key : FcgiParamKey, key.name ≠ name) :
    (insertParams params S)[name]? = params[name]? := by
  induction S generalizing params with
  | nil => rfl
  | cons p rest ih =>
      have hfirst : (params.insertIfNew p.1.name (paramText p.2))[name]? =
          params[name]? := by
        rw [getElem?_insertIfNew, if_neg (hname p.1), Option.or_none]
      exact (ih (params.insertIfNew p.1.name (paramText p.2))).trans hfirst

/-! ### The configuration file -/

/-- The parameter files that the settings name. -/
def includedFiles (S : List (FcgiConfigKey × Bytes)) : List Bytes :=
  S.filterMap fun p =>
    if p.1 = .include_ then stringSetting p.2 else none

/-- The settings of the parameter files. -/
def paramSettings (files : Files) (S : List (FcgiConfigKey × Bytes)) :
    List (FcgiParamKey × Bytes) :=
  (includedFiles S).flatMap (fileSettings files)

/-- What the last setting of a key makes of its field, or the default. -/
def lastOr {V : Type} (S : List (FcgiConfigKey × Bytes)) (key : FcgiConfigKey)
    (read : Bytes → V) (default : V) : V :=
  ((Assignments.last S key).map read).getD default

namespace LoadedConfig

/-- The configuration before the first line. -/
def defaults : LoadedConfig := {}

/-- The configuration that settings make. -/
def ofSettings (files : Files) (S : List (FcgiConfigKey × Bytes)) :
    LoadedConfig where
  enabled := true
  hostname := lastOr S .hostname stringSetting defaults.hostname
  serverIp := lastOr S .serverIp stringSetting defaults.serverIp
  serverPort := lastOr S .serverPort stringSetting defaults.serverPort
  includeFilePath := lastOr S .include_ stringSetting defaults.includeFilePath
  fcgiParams := insertParams ∅ (paramSettings files S)
  documentRootDir :=
    lastOr S .documentRoot stringSetting defaults.documentRootDir
  html := lastOr S .html stringSetting defaults.html
  minConnLength := lastOr S .minConnections strtoll defaults.minConnLength
  maxConnLength := lastOr S .maxConnections strtoll defaults.maxConnLength
  maxReqLength := lastOr S .maxRequests strtoll defaults.maxReqLength
  requestQueueSize :=
    lastOr S .requestQueueSize strtoll defaults.requestQueueSize

theorem lastOr_concat {V : Type} (S : List (FcgiConfigKey × Bytes))
    (p : FcgiConfigKey × Bytes) (key : FcgiConfigKey) (read : Bytes → V)
    (default : V) :
    lastOr (S ++ [p]) key read default =
      if p.1 = key then read p.2 else lastOr S key read default := by
  rw [lastOr, Assignments.last_concat]
  split <;> rfl

theorem includedFiles_concat (S : List (FcgiConfigKey × Bytes))
    (p : FcgiConfigKey × Bytes) :
    includedFiles (S ++ [p]) = includedFiles S ++ includedFiles [p] :=
  List.filterMap_append

theorem paramSettings_concat (files : Files)
    (S : List (FcgiConfigKey × Bytes)) (p : FcgiConfigKey × Bytes) :
    paramSettings files (S ++ [p]) =
      paramSettings files S ++
        (includedFiles [p]).flatMap (fileSettings files) := by
  rw [paramSettings, includedFiles_concat, List.flatMap_append]
  rfl

theorem insertParams_append (params : FcgiParams)
    (S T : List (FcgiParamKey × Bytes)) :
    insertParams params (S ++ T) = insertParams (insertParams params S) T :=
  List.foldl_append

/-- Storing one more setting. -/
theorem store_ofSettings_eq_some {files : Files}
    {S : List (FcgiConfigKey × Bytes)} {key : FcgiConfigKey} {tok : Bytes}
    {config : LoadedConfig} :
    (ofSettings files S).store files key tok = some config ↔
      (∀ fn ∈ includedFiles [(key, tok)], ParamsPresent files fn) ∧
        ofSettings files (S ++ [(key, tok)]) = config := by
  cases key with
  | include_ =>
      by_cases hnull : tok = ascii "NULL"
      · simp [store, ofSettings, lastOr_concat, paramSettings_concat,
          includedFiles, stringSetting, hnull]
      · simp [store, ofSettings, lastOr_concat, paramSettings_concat,
          includedFiles, stringSetting, hnull, initFcgiParam_eq_some,
          insertParams_append]
  | enabled | hostname | serverIp | serverPort | documentRoot | html
  | minConnections | maxConnections | maxRequests | requestQueueSize =>
      simp [store, ofSettings, lastOr_concat, paramSettings_concat,
        includedFiles]

/-- The loop ends with the configuration that the settings make. -/
theorem foldlM_store_eq_some {files : Files}
    {S : List (FcgiConfigKey × Bytes)} {config : LoadedConfig} :
    S.foldlM (fun c p => store files c p.1 p.2) {} = some config ↔
      (∀ fn ∈ includedFiles S, ParamsPresent files fn) ∧
        ofSettings files S = config := by
  induction S using List.reverseRecOn generalizing config with
  | nil =>
      simp [includedFiles, ofSettings, lastOr, Assignments.last, paramSettings,
        insertParams, defaults]
  | append_singleton S p ih =>
      rw [List.foldlM_append, includedFiles_concat, List.forall_mem_append]
      simp only [List.foldlM_cons, List.foldlM_nil, Option.bind_eq_bind,
        Option.bind_eq_some_iff, Option.pure_def, Option.some.injEq, ih,
        exists_eq_right]
      constructor
      · rintro ⟨_, ⟨hfiles, rfl⟩, hstore⟩
        obtain ⟨hlast, heq⟩ := store_ofSettings_eq_some.mp hstore
        exact ⟨⟨hfiles, hlast⟩, heq⟩
      · rintro ⟨⟨hfiles, hlast⟩, heq⟩
        exact ⟨_, ⟨hfiles, rfl⟩, store_ofSettings_eq_some.mpr ⟨hlast, heq⟩⟩

/-- The settings of a text. -/
def settingsOf (text : Bytes) : List (FcgiConfigKey × Bytes) :=
  configFormat.settings (fileReader.reads text)

/-- No line of a file and of the parameter files it names lacks its key. -/
def AllKeysPresent (files : Files) (text : Bytes) : Prop :=
  configFormat.KeysPresent (fileReader.reads text) ∧
    ∀ fn ∈ includedFiles (settingsOf text), ParamsPresent files fn

/-- Loading a file gives the configuration that its settings make, unless a
key is missing. -/
theorem load_eq_some {files : Files} {text : Bytes} {config : LoadedConfig} :
    load files text = some config ↔
      AllKeysPresent files text ∧ ofSettings files (settingsOf text) = config := by
  rw [load, LineFormat.foldlM_line_eq_some, foldlM_store_eq_some,
    AllKeysPresent, and_assoc, settingsOf]

end LoadedConfig

end AtsFastcgi

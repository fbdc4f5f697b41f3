/-
Lines of the configuration file that are not settings: what deleting them
changes.  A line that is longer than the buffer reaches the loop in pieces, and
a piece of an ignored line may be a setting, which counts unless it is
overridden.
-/
import AtsFastcgi.ConfigSettings

namespace AtsFastcgi

namespace LoadedConfig

/-! ### When two lists of settings make the same configuration -/

/-- What a field holds. -/
inductive FieldValue where
  | flag (value : Bool)
  | text (value : Option Bytes)
  | number (value : Int)
deriving DecidableEq

/-- The field of a key. -/
def field (config : LoadedConfig) : FcgiConfigKey → FieldValue
  | .enabled => .flag config.enabled
  | .hostname => .text config.hostname
  | .serverIp => .text config.serverIp
  | .serverPort => .text config.serverPort
  | .include_ => .text config.includeFilePath
  | .documentRoot => .text config.documentRootDir
  | .html => .text config.html
  | .minConnections => .number config.minConnLength
  | .maxConnections => .number config.maxConnLength
  | .maxRequests => .number config.maxReqLength
  | .requestQueueSize => .number config.requestQueueSize

/-- A configuration is its fields and its parameters. -/
theorem eq_of_field {config config' : LoadedConfig}
    (hfields : ∀ key, config.field key = config'.field key)
    (hparams : config.fcgiParams = config'.fcgiParams) : config = config' := by
  have htext : ∀ {a b : Option Bytes}, FieldValue.text a = .text b → a = b :=
    fun heq => FieldValue.text.inj heq
  have hnumber : ∀ {a b : Int}, FieldValue.number a = .number b → a = b :=
    fun heq => FieldValue.number.inj heq
  have hflag := FieldValue.flag.inj (hfields .enabled)
  cases config
  cases config'
  rw [LoadedConfig.mk.injEq]
  exact ⟨hflag, htext (hfields .hostname), htext (hfields .serverIp),
    htext (hfields .serverPort), htext (hfields .include_), hparams,
    htext (hfields .documentRoot), htext (hfields .html),
    hnumber (hfields .minConnections), hnumber (hfields .maxConnections),
    hnumber (hfields .maxRequests), hnumber (hfields .requestQueueSize)⟩

/-- What the text of the last setting of a key, or the lack of one, leaves in
its field. -/
def readField (text : Option Bytes) : FcgiConfigKey → FieldValue
  | .enabled => .flag true
  | .hostname => .text ((text.map stringSetting).getD defaults.hostname)
  | .serverIp => .text ((text.map stringSetting).getD defaults.serverIp)
  | .serverPort => .text ((text.map stringSetting).getD defaults.serverPort)
  | .include_ =>
      .text ((text.map stringSetting).getD defaults.includeFilePath)
  | .documentRoot =>
      .text ((text.map stringSetting).getD defaults.documentRootDir)
  | .html => .text ((text.map stringSetting).getD defaults.html)
  | .minConnections =>
      .number ((text.map strtoll).getD defaults.minConnLength)
  | .maxConnections =>
      .number ((text.map strtoll).getD defaults.maxConnLength)
  | .maxRequests => .number ((text.map strtoll).getD defaults.maxReqLength)
  | .requestQueueSize =>
      .number ((text.map strtoll).getD defaults.requestQueueSize)

def fieldValue (S : List (FcgiConfigKey × Bytes)) (key : FcgiConfigKey) :
    FieldValue :=
  readField (Assignments.last S key) key

theorem field_ofSettings (files : Files) (S : List (FcgiConfigKey × Bytes))
    (key : FcgiConfigKey) :
    (ofSettings files S).field key = fieldValue S key := by
  cases key <;> rfl

/-- The last settings of each key leave the same in its field, and the first
settings of each parameter the same text. -/
structure SameEffect (files : Files) (S : List (FcgiConfigKey × Bytes))
    (files' : Files) (S' : List (FcgiConfigKey × Bytes)) : Prop where
  fields : ∀ key, fieldValue S key = fieldValue S' key
  params : ∀ key, (Assignments.first (paramSettings files S) key).map paramText =
    (Assignments.first (paramSettings files' S') key).map paramText

theorem insertParams_eq_iff {P P' : List (FcgiParamKey × Bytes)} :
    insertParams ∅ P = insertParams ∅ P' ↔
      ∀ key, (Assignments.first P key).map paramText =
        (Assignments.first P' key).map paramText := by
  have hnone : ∀ name : Bytes, (∅ : FcgiParams)[name]? = none :=
    fun _ => Std.ExtTreeMap.getElem?_empty
  constructor
  · intro heq key
    have hlookup := congrArg (fun m : FcgiParams => m[key.name]?) heq
    simp only [getElem?_insertParams, hnone, Option.none_or] at hlookup
    exact hlookup
  · intro hfirst
    apply Std.ExtTreeMap.ext_getElem?
    intro name
    by_cases hkey : ∃ key : FcgiParamKey, key.name = name
    · obtain ⟨key, rfl⟩ := hkey
      rw [getElem?_insertParams, getElem?_insertParams, hnone, Option.none_or,
        Option.none_or]
      exact hfirst key
    · have hother : ∀ key : FcgiParamKey, key.name ≠ name :=
        fun key heq => hkey ⟨key, heq⟩
      rw [getElem?_insertParams_other _ _ hother,
        getElem?_insertParams_other _ _ hother]

/-- Two lists of settings make the same configuration exactly if they have the
same effect. -/
theorem ofSettings_eq_iff {files files' : Files}
    {S S' : List (FcgiConfigKey × Bytes)} :
    ofSettings files S = ofSettings files' S' ↔
      SameEffect files S files' S' := by
  constructor
  · intro heq
    constructor
    · intro key
      rw [← field_ofSettings files, ← field_ofSettings files', heq]
    · exact insertParams_eq_iff.mp (congrArg fcgiParams heq)
  · rintro ⟨hfields, hparams⟩
    apply eq_of_field
    · intro key
      rw [field_ofSettings, field_ofSettings]
      exact hfields key
    · exact insertParams_eq_iff.mpr hparams

/-! ### Deleting lines -/

/-- A line that is a setting, taken as a whole; the other lines are blank,
comments or wrong. -/
def isSetting (line : Bytes) : Bool := (configFormat.setting line).isSome

/-- The lines that are settings. -/
def keptLines (text : Bytes) : List Bytes :=
  (fileReader.lines text).filter isSetting

/-- A file without the lines that are to be ignored. -/
def withoutIgnored (text : Bytes) : Bytes := (keptLines text).flatten

/-- Loading a file uses no null token and gives the same configuration as
loading it without the lines that are to be ignored. -/
def IgnoredHaveNoEffect (files : Files) (fn text : Bytes) : Prop :=
  ∃ config, initConfig files (some fn) = some config ∧
    initConfig (Function.update files fn (some (withoutIgnored text)))
      (some fn) = some config

theorem initConfig_file {files : Files} {fn text : Bytes}
    (hname : fn.length ≠ 1) (hfile : files fn = some text) :
    initConfig files (some fn) = load files text := by
  simp only [initConfig, if_neg hname, hfile]

/-- The pieces of the remaining lines are pieces of the file. -/
theorem mem_reads_of_withoutIgnored {text buf : Bytes}
    (hbuf : buf ∈ fileReader.reads (withoutIgnored text)) :
    buf ∈ fileReader.reads text := by
  rw [withoutIgnored, keptLines, fileReader.reads_filter,
    List.mem_flatMap] at hbuf
  obtain ⟨line, hline, hbuf⟩ := hbuf
  rw [fileReader.reads_eq_flatMap, List.mem_flatMap]
  exact ⟨line, List.mem_of_mem_filter hline, hbuf⟩

theorem mem_settingsOf_of_withoutIgnored {text : Bytes}
    {p : FcgiConfigKey × Bytes} (hp : p ∈ settingsOf (withoutIgnored text)) :
    p ∈ settingsOf text := by
  obtain ⟨buf, hbuf, hsetting⟩ := List.mem_filterMap.mp hp
  exact List.mem_filterMap.mpr ⟨buf, mem_reads_of_withoutIgnored hbuf, hsetting⟩

/-- Deleting lines makes no key missing. -/
theorem AllKeysPresent.withoutIgnored {files : Files} {fn text : Bytes}
    (hfile : files fn = some text) (hkeys : AllKeysPresent files text) :
    AllKeysPresent
      (Function.update files fn (some (withoutIgnored text)))
      (withoutIgnored text) := by
  obtain ⟨hpresent, hparams⟩ := hkeys
  constructor
  · intro buf hbuf
    exact hpresent buf (mem_reads_of_withoutIgnored hbuf)
  · intro other hother
    obtain ⟨p, hp, hname⟩ := List.mem_filterMap.mp hother
    have hin : other ∈ includedFiles (settingsOf text) :=
      List.mem_filterMap.mpr ⟨p, mem_settingsOf_of_withoutIgnored hp, hname⟩
    intro text' htext'
    by_cases hsame : other = fn
    · subst hsame
      rw [Function.update_self] at htext'
      obtain rfl := Option.some.inj htext'
      intro buf hbuf
      exact hparams other hin text hfile buf (mem_reads_of_withoutIgnored hbuf)
    · rw [Function.update_of_ne hsame] at htext'
      exact hparams other hin text' htext'

theorem IgnoredHaveNoEffect.of_sameEffect {files : Files} {fn text : Bytes}
    (hname : fn.length ≠ 1) (hfile : files fn = some text)
    (hkeys : AllKeysPresent files text)
    (heffect : SameEffect files (settingsOf text)
      (Function.update files fn (some (withoutIgnored text)))
      (settingsOf (withoutIgnored text))) :
    IgnoredHaveNoEffect files fn text := by
  have hrest := initConfig_file hname
    (Function.update_self fn (some (withoutIgnored text)) files)
  refine ⟨ofSettings files (settingsOf text), ?_, ?_⟩
  · rw [initConfig_file hname hfile]
    exact load_eq_some.mpr ⟨hkeys, rfl⟩
  · rw [hrest]
    exact load_eq_some.mpr ⟨hkeys.withoutIgnored hfile,
      (ofSettings_eq_iff.mpr heffect).symm⟩

theorem ignoredHaveNoEffect_iff_sameEffect {files : Files} {fn text : Bytes}
    (hname : fn.length ≠ 1) (hfile : files fn = some text) :
    IgnoredHaveNoEffect files fn text ↔
      AllKeysPresent files text ∧
        SameEffect files (settingsOf text)
          (Function.update files fn (some (withoutIgnored text)))
          (settingsOf (withoutIgnored text)) := by
  constructor
  · rintro ⟨config, hall, hkept⟩
    rw [initConfig_file hname hfile] at hall
    rw [initConfig_file hname (Function.update_self ..)] at hkept
    obtain ⟨hkeys, hconfig⟩ := load_eq_some.mp hall
    obtain ⟨-, hsame⟩ := load_eq_some.mp hkept
    exact ⟨hkeys, ofSettings_eq_iff.mp (hconfig.trans hsame.symm)⟩
  · rintro ⟨hkeys, heffect⟩
    exact .of_sameEffect hname hfile hkeys heffect

/-! ### The condition on the text -/

/-- The first word of the piece starts with `word`, and there is no second
one. -/
def lacksKey (word piece : Bytes) : Bool :=
  match strtok ((cString piece).dropWhile isSpace) with
  | (none, _) => false
  | (some first, rest) => word.isPrefixOf first && (strtok rest).1.isNone

theorem strncmpEq_word {word tok : Bytes} (hnul : (0 : UInt8) ∉ word) :
    strncmpEq tok word word.length = word.isPrefixOf tok := by
  rw [Bool.eq_iff_iff, strncmpEq, decide_eq_true_iff, List.take_left,
    List.isPrefixOf_iff_prefix, eq_comm, ← List.prefix_iff_eq_take,
    List.prefix_concat_iff]
  refine or_iff_right fun heq => hnul ?_
  rw [heq]
  exact List.mem_append_right _ List.mem_cons_self

/-- Where the key is looked up and missing. -/
theorem parseLine_eq_nullToken {K : Type} (format : LineFormat K)
    {word : Bytes} (hword : format.word = word) (hnul : (0 : UInt8) ∉ word)
    {ch : UInt8} (hhead : word.head? = some ch) (hcomment : ch ≠ 35)
    (piece : Bytes) :
    format.parseLine piece = .nullToken ↔ lacksKey word piece = true := by
  subst hword
  rw [LineFormat.parseLine, lacksKey]
  rcases strtok ((cString piece).dropWhile isSpace) with ⟨first, rest⟩
  cases first with
  | none => simp
  | some first =>
      simp only [strncmpEq_word hnul]
      cases hprefix : format.word.isPrefixOf first with
      | false => split <;> simp
      | true =>
          -- a word that starts a setting starts no comment
          have hne : first.head? ≠ some 35 := by
            obtain ⟨more, rfl⟩ := List.isPrefixOf_iff_prefix.mp hprefix
            rw [List.head?_append, hhead, Option.some_or]
            exact fun heq => hcomment (Option.some.inj heq)
          rw [if_neg hne, if_pos rfl, LineFormat.lineKey, Bool.true_and]
          rcases strtok rest with ⟨second, rest'⟩
          cases second with
          | none => simp
          | some name =>
              simp only [LineFormat.lineType, LineFormat.lineValue]
              split
              · simp
              · split
                · simp
                · split
                  · simp
                  · split <;> simp

/-- Each piece that starts a setting, in the file and in the parameter files
that it includes, has a second word. -/
def NoKeyMissing (files : Files) (text : Bytes) : Prop :=
  (∀ piece ∈ fileReader.reads text,
      lacksKey (ascii "CONFIG") piece = false) ∧
    ∀ other ∈ includedFiles (settingsOf text), ∀ text',
      files other = some text' → ∀ piece ∈ fileReader.reads text',
        lacksKey (ascii "fastcgi_param") piece = false

theorem noKeyMissing_iff {files : Files} {text : Bytes} :
    NoKeyMissing files text ↔ AllKeysPresent files text := by
  have hconfig : ∀ piece, configFormat.parseLine piece = .nullToken ↔
      lacksKey (ascii "CONFIG") piece = true :=
    parseLine_eq_nullToken configFormat rfl (by decide)
      (show (ascii "CONFIG").head? = some 67 from rfl) (by decide)
  have hparam : ∀ piece, paramFormat.parseLine piece = .nullToken ↔
      lacksKey (ascii "fastcgi_param") piece = true :=
    parseLine_eq_nullToken paramFormat rfl (by decide)
      (show (ascii "fastcgi_param").head? = some 102 from rfl) (by decide)
  simp only [NoKeyMissing, AllKeysPresent, ParamsPresent,
    LineFormat.KeysPresent, ne_eq, hconfig, hparam, Bool.not_eq_true]

/-- The settings of the pieces of a text, each with whether its line stays. -/
def marked {K : Type} (format : LineFormat K) (text : Bytes) :
    List (Bool × K × Bytes) :=
  (fileReader.lines text).flatMap fun line =>
    (format.settings (fileReader.reads line)).map fun p => (isSetting line, p)

/-- The settings of the parameter files.  If the file names itself as one, they
go with its own lines. -/
def markedParams (files : Files) (fn text : Bytes) :
    List (Bool × FcgiParamKey × Bytes) :=
  (marked configFormat text).flatMap fun entry =>
    (includedFiles [entry.2]).flatMap fun other =>
      if other = fn then
        (marked paramFormat text).map fun p => (entry.1 && p.1, p.2)
      else (fileSettings files other).map fun p => (entry.1, p)

/-- A setting in a piece of a line that is deleted does no harm: it is not the
one that counts for its key, or it says what the others say without it. -/
structure StraysHarmless (files : Files) (fn text : Bytes) : Prop where
  settings : ∀ key before value after,
    marked configFormat text = before ++ (false, key, value) :: after →
    (∀ p ∈ after, p.2.1 ≠ key) →
    readField (some value) key =
      readField (Assignments.last (Assignments.kept before) key) key
  params : ∀ key before value after,
    markedParams files fn text = before ++ (false, key, value) :: after →
    (∀ p ∈ before, p.2.1 ≠ key) →
    some (paramText value) =
      (Assignments.first (Assignments.kept after) key).map paramText

section Marked

variable {K : Type} (format : LineFormat K)

theorem settings_flatMap (lines : List Bytes) :
    format.settings (lines.flatMap fileReader.reads) =
      lines.flatMap fun line => format.settings (fileReader.reads line) := by
  induction lines with
  | nil => rfl
  | cons line rest ih =>
      rw [List.flatMap_cons, List.flatMap_cons, ← ih, LineFormat.settings,
        List.filterMap_append]
      rfl

theorem marked_all (text : Bytes) :
    (marked format text).map Prod.snd =
      format.settings (fileReader.reads text) := by
  rw [fileReader.reads_eq_flatMap, settings_flatMap, marked, List.map_flatMap]
  apply List.flatMap_congr
  intro line _
  rw [List.map_map]
  exact List.map_id _

theorem kept_map_mark (stays : Bool) (S : List (K × Bytes)) :
    Assignments.kept (S.map fun p => (stays, p)) = if stays then S else [] := by
  cases stays with
  | false => simp [Assignments.kept, List.filter_map, Function.comp_def]
  | true => simp [Assignments.kept, List.filter_map, Function.comp_def]

theorem marked_kept (text : Bytes) :
    Assignments.kept (marked format text) =
      format.settings (fileReader.reads (withoutIgnored text)) := by
  rw [withoutIgnored, keptLines, fileReader.reads_filter, settings_flatMap,
    marked, Assignments.kept_flatMap]
  induction fileReader.lines text with
  | nil => rfl
  | cons line rest ih =>
      rw [List.flatMap_cons, ih, kept_map_mark, List.filter_cons]
      split
      · rfl
      · rfl

end Marked

theorem includedFiles_eq_flatMap (S : List (FcgiConfigKey × Bytes)) :
    includedFiles S = S.flatMap fun p => includedFiles [p] := by
  induction S with
  | nil => rfl
  | cons p rest ih =>
      rw [List.flatMap_cons, ← ih]
      exact List.filterMap_append (l := [p])

theorem paramSettings_eq_flatMap (files : Files)
    (S : List (FcgiConfigKey × Bytes)) :
    paramSettings files S =
      S.flatMap fun p => (includedFiles [p]).flatMap (fileSettings files) := by
  rw [paramSettings, includedFiles_eq_flatMap, List.flatMap_assoc]

theorem markedParams_all {files : Files} {fn text : Bytes}
    (hfile : files fn = some text) :
    (markedParams files fn text).map Prod.snd =
      paramSettings files (settingsOf text) := by
  rw [paramSettings_eq_flatMap, settingsOf, ← marked_all, List.flatMap_map,
    markedParams, List.map_flatMap]
  apply List.flatMap_congr
  intro entry _
  rw [List.map_flatMap]
  apply List.flatMap_congr
  intro other _
  split
  · next hself =>
      rw [hself, fileSettings, hfile, List.map_map]
      exact marked_all paramFormat text
  · rw [List.map_map]
    exact List.map_id _

theorem markedParams_kept (files : Files) (fn text : Bytes) :
    Assignments.kept (markedParams files fn text) =
      paramSettings (Function.update files fn (some (withoutIgnored text)))
        (settingsOf (withoutIgnored text)) := by
  rw [paramSettings_eq_flatMap, settingsOf, ← marked_kept, markedParams,
    Assignments.kept_flatMap]
  have hentry : ∀ entry : Bool × FcgiConfigKey × Bytes,
      Assignments.kept ((includedFiles [entry.2]).flatMap fun other =>
        if other = fn then
          (marked paramFormat text).map fun p => (entry.1 && p.1, p.2)
        else (fileSettings files other).map fun p => (entry.1, p)) =
      if entry.1 then
        (includedFiles [entry.2]).flatMap (fileSettings
          (Function.update files fn (some (withoutIgnored text))))
      else [] := by
    rintro ⟨stays, p⟩
    rw [Assignments.kept_flatMap]
    cases stays with
    | false =>
        rw [if_neg Bool.false_ne_true, List.flatMap_eq_nil_iff]
        intro other _
        split
        · simp [Assignments.kept, List.filter_map, Function.comp_def]
        · exact kept_map_mark false _
    | true =>
        rw [if_pos rfl]
        apply List.flatMap_congr
        intro other _
        split
        · next hself =>
            have hsame : (fun p : Bool × FcgiParamKey × Bytes =>
                (true && p.1, p.2)) = id := rfl
            rw [hself, fileSettings, Function.update_self, hsame, List.map_id]
            exact marked_kept paramFormat text
        · next hother =>
            rw [kept_map_mark, if_pos rfl, fileSettings, fileSettings,
              Function.update_of_ne hother]
  induction marked configFormat text with
  | nil => rfl
  | cons entry rest ih =>
      rw [List.flatMap_cons, ih, hentry]
      cases hstays : entry.1 with
      | false => simp [Assignments.kept, hstays]
      | true => simp [Assignments.kept, hstays]

/-- Deleting the ignored lines changes nothing exactly if stray settings do no
harm. -/
theorem sameEffect_iff {files : Files} {fn text : Bytes}
    (hfile : files fn = some text) :
    SameEffect files (settingsOf text)
        (Function.update files fn (some (withoutIgnored text)))
        (settingsOf (withoutIgnored text)) ↔
      StraysHarmless files fn text := by
  have hfields := fun key => Assignments.last_kept_iff (readField · key)
    (marked configFormat text) key
  have hparams := fun key => Assignments.first_kept_iff (Option.map paramText)
    (markedParams files fn text) key
  simp only [marked_all, marked_kept] at hfields
  simp only [markedParams_all hfile, markedParams_kept] at hparams
  constructor
  · rintro ⟨hf, hp⟩
    exact ⟨fun key => (hfields key).mp (hf key),
      fun key => (hparams key).mp (hp key)⟩
  · rintro ⟨hf, hp⟩
    exact ⟨fun key => (hfields key).mpr (hf key),
      fun key => (hparams key).mpr (hp key)⟩

/-- A line that fits into the buffer is read as a whole. -/
theorem settings_of_fits {text line : Bytes}
    (hline : line ∈ fileReader.lines text)
    (hfits : line.length ≤ fileReader.capacity)
    (hignored : isSetting line = false) :
    configFormat.settings (fileReader.reads line) = [] := by
  rw [fileReader.reads_of_mem_lines hline hfits, LineFormat.settings]
  simp only [isSetting, Option.isSome_eq_false_iff,
    Option.isNone_iff_eq_none] at hignored
  simp [hignored]

/-- There are no strays where the ignored lines fit into the buffer and the file
is not a parameter file of its own. -/
theorem StraysHarmless.of_fits {files : Files} {fn text : Bytes}
    (hfits : ∀ line ∈ fileReader.lines text, isSetting line = false →
      line.length ≤ fileReader.capacity)
    (hself : fn ∉ includedFiles (settingsOf text)) :
    StraysHarmless files fn text := by
  have hstays : ∀ entry ∈ marked configFormat text, entry.1 = true := by
    intro entry hentry
    obtain ⟨line, hline, hp⟩ := List.mem_flatMap.mp hentry
    obtain ⟨p, hp, rfl⟩ := List.mem_map.mp hp
    by_contra hignored
    have hfalse := Bool.eq_false_iff.mpr hignored
    rw [settings_of_fits hline (hfits line hline hfalse) hfalse] at hp
    exact List.not_mem_nil hp
  have hparams : ∀ entry ∈ markedParams files fn text, entry.1 = true := by
    intro entry hentry
    obtain ⟨naming, hnaming, hentry⟩ := List.mem_flatMap.mp hentry
    obtain ⟨other, hother, hentry⟩ := List.mem_flatMap.mp hentry
    have hne : other ≠ fn := by
      rintro rfl
      apply hself
      rw [includedFiles_eq_flatMap, settingsOf, ← marked_all]
      exact List.mem_flatMap.mpr ⟨naming.2, List.mem_map_of_mem hnaming, hother⟩
    rw [if_neg hne] at hentry
    obtain ⟨p, -, rfl⟩ := List.mem_map.mp hentry
    exact hstays naming hnaming
  constructor
  · intro key before value after hsplit _
    have hin := hstays (false, key, value) (by simp [hsplit])
    contradiction
  · intro key before value after hsplit _
    have hin := hparams (false, key, value) (by simp [hsplit])
    contradiction

/-- Ignored lines have no effect exactly if no key is missing and stray settings
do no harm.  Where the ignored lines fit into the buffer, and the file is not a
parameter file of its own, only a missing key is left. -/
theorem ignoredHaveNoEffect_iff {files : Files} {fn text : Bytes}
    (hname : fn.length ≠ 1) (hfile : files fn = some text) :
    (IgnoredHaveNoEffect files fn text ↔
        NoKeyMissing files text ∧ StraysHarmless files fn text) ∧
      ((∀ line ∈ fileReader.lines text, isSetting line = false →
          line.length ≤ fileReader.capacity) →
        fn ∉ includedFiles (settingsOf text) →
        (IgnoredHaveNoEffect files fn text ↔ NoKeyMissing files text)) := by
  have hiff : IgnoredHaveNoEffect files fn text ↔
      NoKeyMissing files text ∧ StraysHarmless files fn text := by
    rw [ignoredHaveNoEffect_iff_sameEffect hname hfile, noKeyMissing_iff,
      sameEffect_iff hfile]
  refine ⟨hiff, fun hfits hself => ?_⟩
  rw [hiff]
  exact and_iff_left (.of_fits hfits hself)

/-! ### What a file means -/

end LoadedConfig

namespace ConfigLinesWitness

open LoadedConfig

def fileName : Bytes := ascii "fastcgi.config"

/-- A setting whose line ends after the first word. -/
theorem not_always_ignoredHaveNoEffect :
    ¬ ∀ (files : Files) (fn text : Bytes), fn.length ≠ 1 →
      files fn = some text → IgnoredHaveNoEffect files fn text := by
  intro h
  obtain ⟨config, hconfig, -⟩ :=
    h (fun _ => some (ascii "CONFIG\n")) fileName (ascii "CONFIG\n")
      (by decide) rfl
  have hnone : initConfig (fun _ => some (ascii "CONFIG\n")) (some fileName) =
      none := by
    decide +kernel
  rw [hnone] at hconfig
  contradiction

/-- A comment, a blank line, a setting and a line with a wrong key. -/
def text : Bytes :=
  ascii "# pages\n\nCONFIG proxy.config.http.fcgi.host.html STRING a b\n" ++
    ascii "CONFIG host INT 1\n"

theorem text_strays :
    NoKeyMissing (fun _ => some text) text ∧
      StraysHarmless (fun _ => some text) fileName text :=
  (@ignoredHaveNoEffect_iff (fun _ => some text) fileName text (by decide)
    rfl).1.mp
    ⟨{ html := some (ascii "a b") }, by decide +kernel, by decide +kernel⟩

end ConfigLinesWitness

end AtsFastcgi

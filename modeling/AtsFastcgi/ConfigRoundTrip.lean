/-
A configuration written to a file, one setting a line, and loaded again.
-/
import AtsFastcgi.ConfigKeys
import AtsFastcgi.ConfigSettings
import Mathlib.Data.Nat.Digits.Defs

namespace AtsFastcgi

/-! ### Numbers -/

/-- A number in decimal. -/
def decimalText (n : Nat) : Bytes :=
  if n = 0 then ascii "0"
  else (Nat.digits 10 n).reverse.map fun d => UInt8.ofNat (48 + d)

def integerText (z : Int) : Bytes :=
  if z < 0 then 45 :: decimalText z.natAbs else decimalText z.natAbs

theorem digit_toNat {d : Nat} (hd : d < 10) :
    (UInt8.ofNat (48 + d)).toNat = 48 + d := by
  rw [UInt8.toNat_ofNat']
  omega

theorem isDigit_of_mem_decimalText {n : Nat} {ch : UInt8}
    (hch : ch ∈ decimalText n) : isDigit ch = true := by
  unfold decimalText at hch
  split at hch
  · have hzero : ∀ ch ∈ ascii "0", isDigit ch = true := by decide +kernel
    exact hzero ch hch
  · obtain ⟨d, hd, rfl⟩ := List.mem_map.mp hch
    have hlt := Nat.digits_lt_base (by decide) (List.mem_reverse.mp hd)
    have hnat := digit_toNat hlt
    simp only [isDigit, Bool.and_eq_true, decide_eq_true_eq,
      UInt8.le_iff_toNat_le, hnat]
    constructor
    · exact Nat.le_add_right _ _
    · have hnine : (57 : UInt8).toNat = 57 := rfl
      omega

theorem decimalText_ne_nil (n : Nat) : decimalText n ≠ [] := by
  unfold decimalText
  split
  · decide
  · next hne => simp [Nat.digits_ne_nil_iff_ne_zero.mpr hne]

/-- The digits of a number are read back. -/
theorem readDigits_decimalText (n : Nat) : readDigits (decimalText n) = n := by
  have hall : (decimalText n).takeWhile isDigit = decimalText n :=
    List.takeWhile_eq_self_iff.mpr fun _ hch => isDigit_of_mem_decimalText hch
  rw [readDigits, hall]
  unfold decimalText
  split
  · next hzero => rw [hzero]; decide
  · have hfold : ∀ digits : List Nat, (∀ d ∈ digits, d < 10) →
        digits.foldr
            (fun d m => 10 * m + ((UInt8.ofNat (48 + d)).toNat - 48)) 0 =
          Nat.ofDigits 10 digits := by
      intro digits hdigits
      induction digits with
      | nil => rfl
      | cons d rest ih =>
          obtain ⟨hd, hrest⟩ := List.forall_mem_cons.mp hdigits
          rw [List.foldr_cons, ih hrest, digit_toNat hd, Nat.ofDigits_cons]
          omega
    rw [List.foldl_map, List.foldl_reverse,
      hfold _ fun d hd => Nat.digits_lt_base (by decide) hd,
      Nat.ofDigits_digits]

theorem isDigit_plain {ch : UInt8} (hch : isDigit ch = true) :
    isSpace ch = false ∧ ch ≠ 10 ∧ ch ≠ 0 ∧ ch ≠ 43 ∧ ch ≠ 45 := by
  have hne : ∀ other : UInt8, isDigit other = false → ch ≠ other := by
    rintro other hother rfl
    exact Bool.noConfusion (hch.symm.trans hother)
  refine ⟨?_, hne 10 (by decide), hne 0 (by decide), hne 43 (by decide),
    hne 45 (by decide)⟩
  simp only [isDigit, Bool.and_eq_true, decide_eq_true_eq,
    UInt8.le_iff_toNat_le] at hch
  have hlit : (48 : UInt8).toNat = 48 ∧ (13 : UInt8).toNat = 13 := ⟨rfl, rfl⟩
  simp only [isSpace, Bool.or_eq_false_iff, Bool.and_eq_false_iff,
    decide_eq_false_iff_not, UInt8.le_iff_toNat_le]
  exact ⟨hne 32 (by decide), .inr (by omega)⟩

/-- What is written for a number has no space in it. -/
theorem plain_of_mem_integerText {z : Int} {ch : UInt8}
    (hch : ch ∈ integerText z) : isSpace ch = false ∧ ch ≠ 10 ∧ ch ≠ 0 := by
  have hdigit : ch ∈ decimalText z.natAbs →
      isSpace ch = false ∧ ch ≠ 10 ∧ ch ≠ 0 := by
    intro hin
    obtain ⟨hspace, heol, hnul, -⟩ :=
      isDigit_plain (isDigit_of_mem_decimalText hin)
    exact ⟨hspace, heol, hnul⟩
  unfold integerText at hch
  split at hch
  · rcases List.mem_cons.mp hch with rfl | hrest
    · decide
    · exact hdigit hrest
  · exact hdigit hch

theorem integerText_ne_nil (z : Int) : integerText z ≠ [] := by
  unfold integerText
  split
  · exact List.cons_ne_nil _ _
  · exact decimalText_ne_nil _

/-- A 64-bit number is read back. -/
theorem strtoll_integerText {z : Int} (hlow : -2 ^ 63 ≤ z)
    (hhigh : z < 2 ^ 63) :
    strtoll (integerText z) = z := by
  have hread := readDigits_decimalText z.natAbs
  have hskip : (integerText z).dropWhile isSpace = integerText z := by
    cases htext : integerText z with
    | nil => rfl
    | cons ch rest =>
        have hch : ch ∈ integerText z := htext ▸ List.mem_cons_self
        exact List.dropWhile_cons_of_neg
          (by simp [(plain_of_mem_integerText hch).1])
  rw [strtoll, hskip]
  unfold integerText
  by_cases hneg : z < 0
  · rw [if_pos hneg]
    simp only [if_pos, hread]
    omega
  · rw [if_neg hneg]
    cases htext : decimalText z.natAbs with
    | nil => exact absurd htext (decimalText_ne_nil _)
    | cons ch rest =>
        have hch : ch ∈ decimalText z.natAbs := htext ▸ List.mem_cons_self
        obtain ⟨-, -, -, hplus, hminus⟩ :=
          isDigit_plain (isDigit_of_mem_decimalText hch)
        simp only [if_neg hplus, if_neg hminus]
        rw [← htext, hread]
        omega

/-! ### Written configurations -/

/-- A text that can be the value of a string setting. -/
structure PlainText (text : Bytes) : Prop where
  trimmed : Words.Trimmed isSpace text
  noNewline : (10 : UInt8) ∉ text
  noNul : (0 : UInt8) ∉ text
  notNull : text ≠ ascii "NULL"

/-- What is configured. -/
structure Settings where
  enabled : Bool
  hostname : { text : Bytes // PlainText text }
  serverIp : { text : Bytes // PlainText text }
  serverPort : { text : Bytes // PlainText text }
  documentRoot : { text : Bytes // PlainText text }
  html : { text : Bytes // PlainText text }
  minConnections : Int64
  maxConnections : Int64
  maxRequests : Int64
  requestQueueSize : Int64

/-- The full name of a key and the type it has. -/
def FcgiConfigKey.entry : FcgiConfigKey → Bytes × TSRecordDataType
  | .enabled => (ascii "proxy.config.http.fcgi.enabled", .int)
  | .hostname => (ascii "proxy.config.http.fcgi.host.hostname", .string)
  | .serverIp => (ascii "proxy.config.http.fcgi.host.server_ip", .string)
  | .serverPort => (ascii "proxy.config.http.fcgi.host.server_port", .string)
  | .include_ => (ascii "proxy.config.http.fcgi.host.include", .string)
  | .documentRoot =>
      (ascii "proxy.config.http.fcgi.host.document_root", .string)
  | .html => (ascii "proxy.config.http.fcgi.host.html", .string)
  | .minConnections =>
      (ascii "proxy.config.http.fcgi.host.min_connections", .int)
  | .maxConnections =>
      (ascii "proxy.config.http.fcgi.host.max_connections", .int)
  | .maxRequests => (ascii "proxy.config.http.fcgi.host.max_requests", .int)
  | .requestQueueSize =>
      (ascii "proxy.config.http.fcgi.host.request_queue_size", .int)

def TSRecordDataType.word : TSRecordDataType → Bytes
  | .null => []
  | .int => ascii "INT"
  | .string => ascii "STRING"

/-- `CONFIG <full key> <INT|STRING> <value>`. -/
def settingLine (p : FcgiConfigKey × Bytes) : Bytes :=
  ascii "CONFIG" ++ 32 ::
    (p.1.entry.1 ++ 32 :: (p.1.entry.2.word ++ 32 :: p.2))

/-- A blank line or a comment. -/
def isFiller (line : Bytes) : Bool :=
  match line.dropWhile isSpace with
  | [] => true
  | ch :: _ => ch = 35

namespace Settings

variable (c : Settings)

/-- The values in the file. -/
def values : List (FcgiConfigKey × Bytes) :=
  [(.enabled, if c.enabled then ascii "1" else ascii "0"),
    (.hostname, c.hostname), (.serverIp, c.serverIp),
    (.serverPort, c.serverPort), (.documentRoot, c.documentRoot),
    (.html, c.html), (.minConnections, integerText c.minConnections.toInt),
    (.maxConnections, integerText c.maxConnections.toInt),
    (.maxRequests, integerText c.maxRequests.toInt),
    (.requestQueueSize, integerText c.requestQueueSize.toInt)]

/-- The configuration that is to be loaded. -/
def config : LoadedConfig where
  enabled := c.enabled
  hostname := some c.hostname.1
  serverIp := some c.serverIp.1
  serverPort := some c.serverPort.1
  documentRootDir := some c.documentRoot.1
  html := some c.html.1
  minConnLength := c.minConnections.toInt
  maxConnLength := c.maxConnections.toInt
  maxReqLength := c.maxRequests.toInt
  requestQueueSize := c.requestQueueSize.toInt

/-- The lines of a file: one for each setting, in any order, and between them
blank lines and comments. -/
structure Writes (lines : List Bytes) : Prop where
  settings : (lines.filter fun line => !isFiller line).Perm
    (c.values.map settingLine)
  fits : ∀ line ∈ lines, (10 : UInt8) ∉ line ∧ line.length < 8191

end Settings

def fileText (lines : List Bytes) : Bytes :=
  lines.flatMap fun line => line ++ [10]

/-! ### Reading the lines -/

/-- A blank line or a comment is ignored. -/
theorem parseLine_filler {line : Bytes} (hline : isFiller line = true) :
    configFormat.parseLine (line ++ [10]) = .ignored := by
  have hfront : ∀ text : Bytes, isFiller text = true →
      (cString (text ++ [10])).dropWhile isSpace = [] ∨
        ∃ rest, (cString (text ++ [10])).dropWhile isSpace = 35 :: rest := by
    intro text htext
    induction text with
    | nil => exact .inl (by decide)
    | cons ch rest ih =>
        cases hspace : isSpace ch with
        | true =>
            have hnul : ch ≠ 0 := by
              rintro rfl
              exact absurd hspace (by decide)
            have hrest : isFiller rest = true := by
              rw [isFiller, List.dropWhile_cons_of_pos hspace] at htext
              exact htext
            rw [List.cons_append, cString,
              List.takeWhile_cons_of_pos (by simp [hnul]),
              List.dropWhile_cons_of_pos hspace]
            exact ih hrest
        | false =>
            rw [isFiller, List.dropWhile_cons_of_neg (by simp [hspace])]
              at htext
            have hhash : ch = 35 := by simpa using htext
            subst hhash
            exact .inr ⟨_, rfl⟩
  unfold LineFormat.parseLine
  rcases hfront line hline with hblank | ⟨rest, hcomment⟩
  · rw [hblank]
    rfl
  · have hword : ((35 : UInt8) :: rest).takeWhile (fun b => !isBlank b) =
        35 :: rest.takeWhile fun b => !isBlank b :=
      List.takeWhile_cons_of_pos (by decide)
    have hfirst : ((35 : UInt8) :: rest).dropWhile isBlank = 35 :: rest :=
      List.dropWhile_cons_of_neg (by decide)
    simp only [hcomment, strtok, Words.next, hfirst, hword, List.head?_cons,
      if_true]

theorem FcgiConfigKey.entry_word (key : FcgiConfigKey) :
    key.entry.1 ≠ [] ∧ (∀ ch ∈ key.entry.1, isBlank ch = false ∧ ch ≠ 0) := by
  cases key <;> decide +kernel

theorem FcgiConfigKey.entry_mem (key : FcgiConfigKey) :
    (key.entry.1, key, key.entry.2) ∈ configNames := by
  cases key <;> simp only [entry, configNames, List.mem_cons, true_or, or_true]

theorem FcgiConfigKey.entry_find (key : FcgiConfigKey) :
    fcgiHttpTxnConfigFind key.entry.1 (-1) = some (key, key.entry.2) :=
  configNames_table.findName_of_mem key.entry_mem

theorem FcgiConfigKey.entry_type (key : FcgiConfigKey) :
    key.entry.2.word ≠ [] ∧
      (∀ ch ∈ key.entry.2.word, isBlank ch = false ∧ ch ≠ 0) ∧
      strToDatatype (some key.entry.2.word) = key.entry.2 ∧
      key.entry.2 ≠ .null := by
  cases key <;> decide +kernel

section

variable {K : Type} {format : LineFormat K} {s ln : Bytes}

/-- A line whose first word is the one that starts a setting. -/
theorem parseLine_of_word {tok : Bytes}
    (htoken : strtok ((cString s).dropWhile isSpace) = (some tok, ln))
    (hhash : tok.head? ≠ some 35)
    (hword : strncmpEq tok format.word format.word.length = true) :
    format.parseLine s = format.lineKey ln := by
  rw [LineFormat.parseLine, htoken]
  simp only [if_neg hhash, hword, if_true]

/-- A key that is found. -/
theorem lineKey_of_find {name : Bytes} {key : K} {expected : TSRecordDataType}
    (htoken : strtok s = (some name, ln))
    (hfind : format.find name (-1) = some (key, expected)) :
    format.lineKey s = LineFormat.lineType key expected ln := by
  rw [LineFormat.lineKey, htoken]
  simp only [hfind]

/-- A type that is the expected one. -/
theorem lineType_of_type {tok : Option Bytes} {key : K}
    {expected : TSRecordDataType} (htoken : strtok s = (tok, ln))
    (hdatatype : strToDatatype tok = expected) (hnull : expected ≠ .null) :
    LineFormat.lineType key expected s = LineFormat.lineValue key ln := by
  rw [LineFormat.lineType, htoken]
  simp only [hdatatype, if_neg hnull, ne_eq, not_true_eq_false, if_false]

end

/-- The first word of a setting. -/
theorem parseLine_config {ln : Bytes} (hnul : (0 : UInt8) ∉ ln) :
    configFormat.parseLine (ascii "CONFIG" ++ 32 :: ln) =
      configFormat.lineKey ln := by
  have hword : (0 : UInt8) ∉ ascii "CONFIG" := by decide
  have hstring : cString (ascii "CONFIG" ++ 32 :: ln) =
      ascii "CONFIG" ++ 32 :: ln := by
    apply cString_eq_self
    simp [hword, hnul]
  have hletter : ascii "CONFIG" = 67 :: ascii "ONFIG" := by decide
  have hfront : (ascii "CONFIG" ++ 32 :: ln).dropWhile isSpace =
      ascii "CONFIG" ++ 32 :: ln := by
    rw [hletter, List.cons_append, List.dropWhile_cons_of_neg (by decide)]
  have hletters : ∀ ch ∈ ascii "CONFIG", isBlank ch = false := by
    decide +kernel
  have htoken : strtok (ascii "CONFIG" ++ 32 :: ln) =
      (some (ascii "CONFIG"), ln) :=
    Words.next_append (by decide) hletters (by decide) ln
  apply @parseLine_of_word _ _ _ _ (ascii "CONFIG")
  · rw [hstring, hfront, htoken]
  · decide
  · decide

/-- The key of a setting. -/
theorem lineKey_entry (key : FcgiConfigKey) (ln : Bytes) :
    configFormat.lineKey (key.entry.1 ++ 32 :: ln) =
      LineFormat.lineType key key.entry.2 ln := by
  obtain ⟨hne, hword⟩ := key.entry_word
  have hlookup : configFormat.find = fcgiHttpTxnConfigFind := rfl
  apply lineKey_of_find
  · exact Words.next_append hne (fun ch hch => (hword ch hch).1) (by decide) ln
  · rw [hlookup, key.entry_find]

/-- The type of a setting. -/
theorem lineType_entry (key : FcgiConfigKey) (ln : Bytes) :
    LineFormat.lineType key key.entry.2 (key.entry.2.word ++ 32 :: ln) =
      LineFormat.lineValue key ln := by
  obtain ⟨hne, hword, hdatatype, hnull⟩ := key.entry_type
  exact lineType_of_type
    (Words.next_append hne (fun ch hch => (hword ch hch).1) (by decide) ln)
    hdatatype hnull

/-- The value of a setting. -/
theorem lineValue_concat {key : FcgiConfigKey} {value : Bytes}
    (hvalue : Words.Trimmed isSpace value) :
    LineFormat.lineValue key (value ++ [10]) = .setting key value := by
  have htrim : Words.trim isSpace (value ++ [10]) = value :=
    Words.trim_concat hvalue (by decide)
  rw [LineFormat.lineValue, htrim]
  simp only [if_neg hvalue.ne_nil]

/-- The line of a setting is read as the setting. -/
theorem parseLine_settingLine {key : FcgiConfigKey} {value : Bytes}
    (hvalue : Words.Trimmed isSpace value) (hnul : (0 : UInt8) ∉ value) :
    configFormat.parseLine (settingLine (key, value) ++ [10]) =
      .setting key value := by
  have hentry : (0 : UInt8) ∉ key.entry.1 :=
    fun hin => (key.entry_word.2 0 hin).2 rfl
  have hword : (0 : UInt8) ∉ key.entry.2.word :=
    fun hin => (key.entry_type.2.1 0 hin).2 rfl
  have hline : settingLine (key, value) ++ [10] = ascii "CONFIG" ++ 32 ::
      (key.entry.1 ++ 32 :: (key.entry.2.word ++ 32 :: (value ++ [10]))) := by
    simp [settingLine]
  rw [hline, parseLine_config (by simp [hentry, hword, hnul]), lineKey_entry,
    lineType_entry, lineValue_concat hvalue]

/-! ### Round trip -/

theorem trimmed_of_plain {text : Bytes} (hne : text ≠ [])
    (hplain : ∀ ch ∈ text, isSpace ch = false) : Words.Trimmed isSpace text :=
  ⟨hne, fun h => hplain _ (List.head_mem h),
    fun h => hplain _ (List.getLast_mem h)⟩

namespace Settings

variable {c : Settings}

theorem values_keys (c : Settings) :
    (c.values.map Prod.fst).Nodup ∧ FcgiConfigKey.include_ ∉
      c.values.map Prod.fst := by
  simp only [values, List.map_cons, List.map_nil]
  decide

/-- The values can be written and read. -/
theorem value_readable {p : FcgiConfigKey × Bytes} (hp : p ∈ c.values) :
    Words.Trimmed isSpace p.2 ∧ (0 : UInt8) ∉ p.2 := by
  have htext : ∀ text : { text : Bytes // PlainText text },
      Words.Trimmed isSpace text.1 ∧ (0 : UInt8) ∉ text.1 :=
    fun text => ⟨text.2.trimmed, text.2.noNul⟩
  have hnumber : ∀ z : Int, Words.Trimmed isSpace (integerText z) ∧
      (0 : UInt8) ∉ integerText z := by
    intro z
    refine ⟨trimmed_of_plain (integerText_ne_nil z) fun ch hch =>
      (plain_of_mem_integerText hch).1, ?_⟩
    intro hin
    exact (plain_of_mem_integerText hin).2.2 rfl
  have hflag : ∀ b : Bool, Words.Trimmed isSpace
      (if b then ascii "1" else ascii "0") ∧
      (0 : UInt8) ∉ (if b then ascii "1" else ascii "0") := by
    intro b
    have hbits : ∀ ch ∈ (if b then ascii "1" else ascii "0"),
        isSpace ch = false ∧ ch ≠ 0 := by
      cases b <;> decide +kernel
    refine ⟨trimmed_of_plain (by cases b <;> decide) fun ch hch =>
      (hbits ch hch).1, ?_⟩
    intro hin
    exact (hbits 0 hin).2 rfl
  simp only [values, List.mem_cons, List.not_mem_nil, or_false] at hp
  rcases hp with rfl | rfl | rfl | rfl | rfl | rfl | rfl | rfl | rfl | rfl
  · exact hflag c.enabled
  · exact htext c.hostname
  · exact htext c.serverIp
  · exact htext c.serverPort
  · exact htext c.documentRoot
  · exact htext c.html
  · exact hnumber _
  · exact hnumber _
  · exact hnumber _
  · exact hnumber _

/-- The loop reads the lines one by one. -/
theorem reads_fileText {lines : List Bytes} (hwrites : c.Writes lines) :
    fileReader.reads (fileText lines) = lines.map fun line => line ++ [10] :=
  fileReader.reads_flatMap_line hwrites.fits

/-- A line of the file is ignored, or it is read as one of the values. -/
theorem parseLine_of_mem {lines : List Bytes} (hwrites : c.Writes lines)
    {line : Bytes} (hline : line ∈ lines) :
    (isFiller line = true ∧
        configFormat.parseLine (line ++ [10]) = .ignored) ∨
      isFiller line = false ∧ ∃ p ∈ c.values, line = settingLine p ∧
        configFormat.parseLine (line ++ [10]) = .setting p.1 p.2 := by
  cases hfiller : isFiller line with
  | true => exact .inl ⟨rfl, parseLine_filler hfiller⟩
  | false =>
      have hin : line ∈ lines.filter fun line => !isFiller line :=
        List.mem_filter.mpr ⟨hline, by simp [hfiller]⟩
      obtain ⟨p, hp, rfl⟩ := List.mem_map.mp (hwrites.settings.mem_iff.mp hin)
      obtain ⟨htrimmed, hnul⟩ := value_readable hp
      exact .inr ⟨rfl, p, hp, rfl, parseLine_settingLine htrimmed hnul⟩

/-- The settings that are read are the values, in the order of the lines. -/
theorem settingsOf_fileText {lines : List Bytes} (hwrites : c.Writes lines) :
    (LoadedConfig.settingsOf (fileText lines)).Perm c.values := by
  have hread : ∀ p ∈ c.values,
      configFormat.setting (settingLine p ++ [10]) = some p := by
    intro p hp
    obtain ⟨htrimmed, hnul⟩ := value_readable hp
    rw [LineFormat.setting, parseLine_settingLine htrimmed hnul]
  have hskip : ∀ lines : List Bytes, lines.filterMap
      (fun line => configFormat.setting (line ++ [10])) =
        (lines.filter fun line => !isFiller line).filterMap
          fun line => configFormat.setting (line ++ [10]) := by
    intro lines
    induction lines with
    | nil => rfl
    | cons line rest ih =>
        rw [List.filter_cons]
        cases hfiller : isFiller line with
        | true =>
            have hnone : configFormat.setting (line ++ [10]) = none := by
              rw [LineFormat.setting, parseLine_filler hfiller]
            simp [hnone, ih]
        | false => simp [List.filterMap_cons, ih]
  rw [LoadedConfig.settingsOf, reads_fileText hwrites, LineFormat.settings,
    List.filterMap_map]
  have hperm := hwrites.settings.filterMap
    fun line => configFormat.setting (line ++ [10])
  have hvalues : (c.values.map settingLine).filterMap
      (fun line => configFormat.setting (line ++ [10])) = c.values := by
    rw [List.filterMap_map]
    exact (List.filterMap_congr hread).trans List.filterMap_some
  rw [← hskip, hvalues] at hperm
  exact hperm

/-- No key is missing. -/
theorem allKeysPresent {lines : List Bytes} (hwrites : c.Writes lines)
    (files : Files) : LoadedConfig.AllKeysPresent files (fileText lines) := by
  constructor
  · intro buf hbuf
    rw [reads_fileText hwrites] at hbuf
    obtain ⟨line, hline, rfl⟩ := List.mem_map.mp hbuf
    rcases parseLine_of_mem hwrites hline with ⟨-, hparse⟩ |
      ⟨-, p, -, -, hparse⟩
    · rw [hparse]
      intro hnull
      cases hnull
    · rw [hparse]
      intro hnull
      cases hnull
  · intro fn hfn
    obtain ⟨p, hp, hname⟩ := List.mem_filterMap.mp hfn
    have hkey := @List.mem_map_of_mem _ _ _ _ Prod.fst
      ((settingsOf_fileText hwrites).mem_iff.mp hp)
    split at hname
    · next heq =>
        rw [heq] at hkey
        exact absurd hkey c.values_keys.2
    · contradiction

/-- What is loaded from the file: the values, but `enabled` is set. -/
theorem load_fileText {lines : List Bytes} (hwrites : c.Writes lines)
    (files : Files) :
    LoadedConfig.load files (fileText lines) =
      some { c.config with enabled := true } := by
  have hperm := settingsOf_fileText hwrites
  have hnodup := (hperm.map Prod.fst).nodup_iff.mpr c.values_keys.1
  have hlast : ∀ {key : FcgiConfigKey} {value : Bytes},
      (key, value) ∈ c.values →
      Assignments.last (LoadedConfig.settingsOf (fileText lines)) key =
        some value :=
    fun hin => Assignments.last_of_mem hnodup (hperm.mem_iff.mpr hin)
  have hinclude : ∀ p ∈ LoadedConfig.settingsOf (fileText lines),
      p.1 ≠ .include_ := by
    intro p hp heq
    have hkey : p.1 ∈ c.values.map Prod.fst :=
      List.mem_map_of_mem (hperm.mem_iff.mp hp)
    exact c.values_keys.2 (heq ▸ hkey)
  have hfiles : includedFiles (LoadedConfig.settingsOf (fileText lines)) =
      [] := by
    rw [includedFiles, List.filterMap_eq_nil_iff]
    intro p hp
    rw [if_neg (hinclude p hp)]
  have htext : ∀ text : { text : Bytes // PlainText text },
      stringSetting text = some text.1 := fun text => if_neg text.2.notNull
  have hnumber : ∀ n : Int64, strtoll (integerText n.toInt) = n.toInt :=
    fun n => strtoll_integerText n.le_toInt n.toInt_lt
  rw [LoadedConfig.load_eq_some]
  refine ⟨allKeysPresent hwrites files, ?_⟩
  simp only [LoadedConfig.ofSettings, lastOr, paramSettings, hfiles,
    hlast (by simp [values] : (.hostname, c.hostname.1) ∈ c.values),
    hlast (by simp [values] : (.serverIp, c.serverIp.1) ∈ c.values),
    hlast (by simp [values] : (.serverPort, c.serverPort.1) ∈ c.values),
    hlast (by simp [values] : (.documentRoot, c.documentRoot.1) ∈ c.values),
    hlast (by simp [values] : (.html, c.html.1) ∈ c.values),
    hlast (by simp [values] :
      (.minConnections, integerText c.minConnections.toInt) ∈ c.values),
    hlast (by simp [values] :
      (.maxConnections, integerText c.maxConnections.toInt) ∈ c.values),
    hlast (by simp [values] :
      (.maxRequests, integerText c.maxRequests.toInt) ∈ c.values),
    hlast (by simp [values] :
      (.requestQueueSize, integerText c.requestQueueSize.toInt) ∈ c.values),
    Assignments.last_eq_none_iff.mpr hinclude, Option.map_some,
    Option.getD_some, Option.map_none, Option.getD_none, htext, hnumber]
  rfl

/-- A configuration is given back exactly if it is enabled. -/
theorem initConfig_writes_iff {lines : List Bytes} (hwrites : c.Writes lines)
    {files : Files} {fn : Bytes} (hname : fn.length ≠ 1)
    (hfile : files fn = some (fileText lines)) :
    LoadedConfig.initConfig files (some fn) = some c.config ↔
      c.enabled = true := by
  have hload : LoadedConfig.initConfig files (some fn) =
      some { c.config with enabled := true } := by
    simp only [LoadedConfig.initConfig, if_neg hname, hfile]
    exact load_fileText hwrites files
  rw [hload, Option.some.injEq]
  constructor
  · intro heq
    exact (congrArg LoadedConfig.enabled heq).symm
  · intro henabled
    simp [config, henabled]

end Settings

namespace ConfigRoundTripWitness

def pages : { text : Bytes // PlainText text } :=
  ⟨ascii "a b", ⟨by decide, by decide, by decide⟩, by decide, by decide,
    by decide⟩

/-- The same text for every string and zero for every number. -/
def settings (enabled : Bool) : Settings :=
  ⟨enabled, pages, pages, pages, pages, pages, 0, 0, 0, 0⟩

/-- A comment, the settings from the last one to the first, and a blank
line. -/
def lines (enabled : Bool) : List Bytes :=
  ascii "# fcgi" :: (((settings enabled).values.map settingLine).reverse ++ [[]])

theorem writes_lines (enabled : Bool) :
    (settings enabled).Writes (lines enabled) := by
  cases enabled <;> constructor <;> decide +kernel

def fileName : Bytes := ascii "fastcgi.config"

theorem not_always_roundTrip :
    ¬ ∀ (c : Settings) (lines : List Bytes), c.Writes lines →
      ∀ (files : Files) (fn : Bytes), fn.length ≠ 1 →
        files fn = some (fileText lines) →
        LoadedConfig.initConfig files (some fn) = some c.config := by
  intro h
  have hload := h (settings false) (lines false) (writes_lines false)
    (fun _ => some (fileText (lines false))) fileName (by decide) rfl
  have henabled : LoadedConfig.initConfig
      (fun _ => some (fileText (lines false))) (some fileName) =
      some { (settings false).config with enabled := true } :=
    Settings.load_fileText (writes_lines false) _
  rw [henabled] at hload
  exact Bool.noConfusion (congrArg LoadedConfig.enabled (Option.some.inj hload))

theorem roundTrip_enabled :
    LoadedConfig.initConfig (fun _ => some (fileText (lines true)))
      (some fileName) = some (settings true).config := by
  have hname : fileName.length ≠ 1 := by decide
  have hwrites := writes_lines true
  generalize lines true = text at hwrites ⊢
  exact (Settings.initConfig_writes_iff hwrites hname rfl).mpr rfl

end ConfigRoundTripWitness

end AtsFastcgi

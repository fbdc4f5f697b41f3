/-
What the client's header fields do to the parameters of a request: which of
their values reach the map of `GenerateFcgiRequestHeaders`, and which entries
of the final map they cannot touch.
-/
import AtsFastcgi.Lib.Assignments
import AtsFastcgi.RequestBuffer
import Mathlib.Data.List.TakeWhile

namespace AtsFastcgi

/-! ### Maps filled from a list of pairs -/

/-- Assignments to a map, in order. -/
def StringMap.assign (m : StringMap) (pairs : List (Bytes × Bytes)) :
    StringMap :=
  pairs.foldl (fun m p => m.insert p.1 p.2) m

/-- A later assignment wins over an earlier one and over what was there. -/
theorem StringMap.getElem?_assign (m : StringMap)
    (pairs : List (Bytes × Bytes)) (key : Bytes) :
    (StringMap.assign m pairs)[key]? =
      (Assignments.last pairs key).or m[key]? := by
  induction pairs generalizing m with
  | nil => rfl
  | cons p rest ih =>
      have hfirst : (m.insert p.1 p.2)[key]? =
          (if p.1 = key then some p.2 else none).or m[key]? := by
        rw [Std.TreeMap.getElem?_insert]
        by_cases heq : p.1 = key
        · simp [heq]
        · simp [heq]
      rw [Assignments.last, Option.or_assoc, ← hfirst]
      exact ih (m.insert p.1 p.2)

/-! ### The two kinds of entries -/

/-- The header fields that the iterator yields. -/
def ClientRequest.headerFields (txn : ClientRequest) :
    List (Bytes × List Bytes) :=
  if txn.headersInitialized then txn.fields else []

/-- The entries made from the client's header fields. -/
def clientEntries (api : HeadersApi) (txn : ClientRequest) :
    List (Bytes × Bytes) :=
  txn.headerFields.map fun field =>
    (httpName field.1, api.values (ascii ", ") field.2)

theorem clientHeaders_eq (api : HeadersApi) (txn : ClientRequest) :
    clientHeaders api txn = StringMap.assign ∅ (clientEntries api txn) := by
  unfold clientHeaders clientEntries ClientRequest.headerFields
  split
  · rw [StringMap.assign, List.foldl_map]
  · rfl

/-- The entries that the plugin sets itself. -/
def serverEntries (config : FcgiPluginConfig) (txn : ClientRequest) :
    List (Bytes × Bytes) :=
  let script := requestScript config txn
  [(ascii "DOCUMENT_ROOT", config.documentRootDir),
    (ascii "SCRIPT_FILENAME", config.documentRootDir ++ script),
    (ascii "GATEWAY_INTERFACE", ascii "FastCGI/1.1"),
    (ascii "REQUEST_METHOD", txn.method),
    (ascii "SCRIPT_NAME", ascii "/" ++ script),
    (ascii "QUERY_STRING", txn.query),
    (ascii "REQUEST_URI", ascii "/" ++ script),
    (ascii "SERVER_SOFTWARE", ascii "ATS 7.1.1"),
    (ascii "REMOTE_ADDR", ascii "127.0.0.1"),
    (ascii "REMOTE_PORT", ascii "8090"),
    (ascii "SERVER_ADDR", ascii "127.0.0.1"),
    (ascii "SERVER_PORT", ascii "60000"),
    (ascii "SERVER_NAME", ascii "ATS 7.1.1"),
    (ascii "SERVER_PROTOCOL", ascii "HTTP/1.1"),
    (ascii "FCGI_ROLE", ascii "RESPONDER")]

theorem generateFcgiRequestHeaders_eq (config : FcgiPluginConfig)
    (txn : ClientRequest) :
    generateFcgiRequestHeaders config txn =
      StringMap.assign ∅
        (clientEntries config.headersApi txn ++ serverEntries config txn) := by
  rw [StringMap.assign, List.foldl_append]
  exact congrArg (StringMap.assign · (serverEntries config txn))
    (clientHeaders_eq config.headersApi txn)

/-- The keys of the second kind do not begin with `HTTP_`. -/
theorem serverEntries_key {config : FcgiPluginConfig} {txn : ClientRequest}
    {p : Bytes × Bytes} (hp : p ∈ serverEntries config txn) :
    ¬ ascii "HTTP_" <+: p.1 := by
  have hkeys : ∀ key ∈ (serverEntries config txn).map Prod.fst,
      ¬ ascii "HTTP_" <+: key := by
    simp only [serverEntries, List.map_cons, List.map_nil]
    decide
  exact hkeys p.1 (List.mem_map_of_mem hp)

theorem clientEntries_key {api : HeadersApi} {txn : ClientRequest}
    {p : Bytes × Bytes} (hp : p ∈ clientEntries api txn) :
    ascii "HTTP_" <+: p.1 := by
  obtain ⟨field, -, rfl⟩ := List.mem_map.mp hp
  exact List.prefix_append _ _

/-- An `HTTP_` entry is the last one made from a header field. -/
theorem generateFcgiRequestHeaders_http {config : FcgiPluginConfig}
    {txn : ClientRequest} {key : Bytes} (hkey : ascii "HTTP_" <+: key) :
    (generateFcgiRequestHeaders config txn)[key]? =
      Assignments.last (clientEntries config.headersApi txn) key := by
  have hserver : Assignments.last (serverEntries config txn) key = none := by
    rw [Assignments.last_eq_none_iff]
    intro p hp heq
    exact serverEntries_key hp (heq ▸ hkey)
  rw [generateFcgiRequestHeaders_eq, StringMap.getElem?_assign,
    Assignments.last_append, hserver, Option.none_or, Std.TreeMap.getElem?_emptyc,
    Option.or_none]

/-- Every other entry is one that the plugin sets itself. -/
theorem generateFcgiRequestHeaders_other {config : FcgiPluginConfig}
    {txn : ClientRequest} {key : Bytes} (hkey : ¬ ascii "HTTP_" <+: key) :
    (generateFcgiRequestHeaders config txn)[key]? =
      Assignments.last (serverEntries config txn) key := by
  have hclient :
      Assignments.last (clientEntries config.headersApi txn) key = none := by
    rw [Assignments.last_eq_none_iff]
    intro p hp heq
    exact hkey (heq ▸ clientEntries_key hp)
  rw [generateFcgiRequestHeaders_eq, StringMap.getElem?_assign,
    Assignments.last_append, hclient, Option.or_none, Std.TreeMap.getElem?_emptyc,
    Option.or_none]

/-! ### Values of the client -/

/-- The name of a header field in upper case. -/
def upperName (field : Bytes × List Bytes) : Bytes := field.1.map toUpper

/-- The values of all fields of one name, in order. -/
def valuesNamed (fields : List (Bytes × List Bytes)) (name : Bytes) :
    List Bytes :=
  (fields.filter fun field => upperName field = name).flatMap Prod.snd

/-- The map holds the values of every name, and no other `HTTP_` entry. -/
structure KeepsValues (m : StringMap) (fields : List (Bytes × List Bytes)) :
    Prop where
  joined : ∀ field ∈ fields, m[ascii "HTTP_" ++ upperName field]? =
    some ((ascii ", ").intercalate (valuesNamed fields (upperName field)))
  noOther : ∀ key : Bytes, key ∈ m → ascii "HTTP_" <+: key →
    ∃ field ∈ fields, key = ascii "HTTP_" ++ upperName field

/-- Of several fields of one name the last one has all that is joined: the
earlier ones have no values, or a single empty one in front of none. -/
def LastHasAll (fields : List (Bytes × List Bytes)) : Prop :=
  ∀ earlier last later, fields = earlier ++ last :: later →
    (∀ field ∈ later, upperName field ≠ upperName last) →
    valuesNamed earlier (upperName last) = [] ∨
      valuesNamed earlier (upperName last) = [[]] ∧ last.2 = []

/-- Values in front of others are seen in the joined text. -/
theorem intercalate_append_eq_iff {join : Bytes} (hjoin : join ≠ [])
    (front back : List Bytes) :
    join.intercalate (front ++ back) = join.intercalate back ↔
      front = [] ∨ front = [[]] ∧ back = [] := by
  have hpos := List.length_pos_iff.mpr hjoin
  have hgrow : ∀ front : List Bytes, back ≠ [] →
      (join.intercalate back).length + front.length * join.length ≤
        (join.intercalate (front ++ back)).length := by
    intro front hback
    induction front with
    | nil => simp
    | cons text rest ih =>
        rw [List.cons_append,
          List.intercalate_cons_of_ne_nil (by simp [hback])]
        simp only [List.length_append, List.length_cons, Nat.succ_mul]
        omega
  cases front with
  | nil => simp
  | cons text rest =>
      by_cases hback : back = []
      · subst hback
        cases rest with
        | nil => simp
        | cons other rest =>
            simp [List.intercalate_cons_cons, hjoin]
      · have hlonger := hgrow (text :: rest) hback
        constructor
        · intro heq
          rw [heq, List.length_cons, Nat.succ_mul] at hlonger
          omega
        · rintro (hnil | ⟨-, hnil⟩)
          · exact absurd hnil (List.cons_ne_nil _ _)
          · exact absurd hnil hback

/-- The last field of a name is the last one that adds a value to it. -/
theorem valuesNamed_last {earlier later : List (Bytes × List Bytes)}
    {last : Bytes × List Bytes}
    (hlast : ∀ field ∈ later, upperName field ≠ upperName last) :
    valuesNamed (earlier ++ last :: later) (upperName last) =
      valuesNamed earlier (upperName last) ++ last.2 := by
  have hlater : later.filter (fun field => upperName field = upperName last) =
      [] := by
    simpa using hlast
  simp [valuesNamed, hlater]

/-- A name that occurs has a last field. -/
theorem exists_last {fields : List (Bytes × List Bytes)} {name : Bytes}
    (hin : ∃ field ∈ fields, upperName field = name) :
    ∃ earlier last later, fields = earlier ++ last :: later ∧
      upperName last = name ∧ ∀ other ∈ later, upperName other ≠ name := by
  induction fields with
  | nil => simp at hin
  | cons first rest ih =>
      by_cases hrest : ∃ other ∈ rest, upperName other = name
      · obtain ⟨earlier, last, later, rfl, hlast⟩ := ih hrest
        exact ⟨first :: earlier, last, later, rfl, hlast⟩
      · obtain ⟨field, hfield, hname⟩ := hin
        rcases List.mem_cons.mp hfield with rfl | htail
        · refine ⟨[], field, rest, rfl, hname, ?_⟩
          intro other hother hsame
          exact hrest ⟨other, hother, hsame⟩
        · exact absurd ⟨field, htail, hname⟩ hrest

theorem zero_notMem_cString (text : Bytes) : (0 : UInt8) ∉ cString text := by
  intro hin
  have hne := List.mem_takeWhile_imp hin
  simp at hne

theorem toUpper_eq_zero {ch : UInt8} : toUpper ch = 0 ↔ ch = 0 := by
  unfold toUpper
  split
  · next hlower =>
      have hlow := UInt8.le_iff_toNat_le.mp hlower.1
      have hhigh := UInt8.le_iff_toNat_le.mp hlower.2
      constructor
      · intro hzero
        have hnat := congrArg UInt8.toNat hzero
        rw [UInt8.toNat_sub_of_le _ _ (Nat.le_trans (by decide) hlow)] at hnat
        have hlit : (97 : UInt8).toNat = 97 ∧ (32 : UInt8).toNat = 32 ∧
          (0 : UInt8).toNat = 0 := by decide
        omega
      · rintro rfl
        exact absurd hlow (by decide)
  · exact Iff.rfl

/-- A key made from a header field has no NUL. -/
theorem zero_notMem_httpName (name : Bytes) : (0 : UInt8) ∉ httpName name := by
  have hliteral : (0 : UInt8) ∉ ascii "HTTP_" := by decide
  rw [httpName, List.mem_append, not_or]
  refine ⟨hliteral, ?_⟩
  intro hin
  obtain ⟨ch, hch, hzero⟩ := List.mem_map.mp hin
  exact zero_notMem_cString name (toUpper_eq_zero.mp hzero ▸ hch)

theorem httpName_eq {field : Bytes × List Bytes}
    (hnul : (0 : UInt8) ∉ field.1) :
    httpName field.1 = ascii "HTTP_" ++ upperName field := by
  rw [httpName, cString_eq_self hnul, upperName]

section

variable {config : FcgiPluginConfig} {txn : ClientRequest}

/-- The entry of a name is made from its last field. -/
theorem generateFcgiRequestHeaders_last
    {earlier later : List (Bytes × List Bytes)} {last : Bytes × List Bytes}
    (hnul : ∀ field ∈ txn.headerFields, (0 : UInt8) ∉ field.1)
    (hfields : txn.headerFields = earlier ++ last :: later)
    (hlast : ∀ field ∈ later, upperName field ≠ upperName last) :
    (generateFcgiRequestHeaders config txn)[
        ascii "HTTP_" ++ upperName last]? =
      some (config.headersApi.values (ascii ", ") last.2) := by
  rw [generateFcgiRequestHeaders_http (List.prefix_append _ _), clientEntries,
    hfields, List.map_append, List.map_cons]
  have hmem : ∀ field ∈ last :: later, field ∈ txn.headerFields := by
    intro field hfield
    rw [hfields]
    exact List.mem_append_right _ hfield
  have hkey := httpName_eq (hnul last (hmem last List.mem_cons_self))
  rw [← hkey]
  apply Assignments.last_append_cons
  intro p hp heq
  obtain ⟨field, hfield, rfl⟩ := List.mem_map.mp hp
  have hname :=
    httpName_eq (hnul field (hmem field (List.mem_cons_of_mem _ hfield)))
  rw [hname, hkey] at heq
  exact hlast field hfield (List.append_cancel_left heq)

/-- A name that is read through `c_str()` is found if it has no NUL. -/
theorem KeepsValues.nulFree
    (hkeeps : KeepsValues (generateFcgiRequestHeaders config txn)
      txn.headerFields) :
    ∀ field ∈ txn.headerFields, (0 : UInt8) ∉ field.1 := by
  intro field hfield hzero
  have hentry := hkeeps.joined field hfield
  rw [generateFcgiRequestHeaders_http (List.prefix_append _ _)] at hentry
  have hmem : ∃ p ∈ clientEntries config.headersApi txn,
      p.1 = ascii "HTTP_" ++ upperName field := by
    by_contra hnone
    rw [Assignments.last_eq_none_iff.mpr
      (fun p hp heq => hnone ⟨p, hp, heq⟩)]
      at hentry
    contradiction
  obtain ⟨p, hp, hkey⟩ := hmem
  obtain ⟨other, -, rfl⟩ := List.mem_map.mp hp
  apply zero_notMem_httpName other.1
  have hletters : (0 : UInt8) ∈ upperName field :=
    List.mem_map.mpr ⟨0, hzero, toUpper_eq_zero.mpr rfl⟩
  have hsame : ascii "HTTP_" ++ upperName field = httpName other.1 :=
    hkey.symm
  rw [← hsame]
  exact List.mem_append_right _ hletters

/-- No value is lost exactly if the names have no NUL and the last field of
each name has all of its values. -/
theorem keepsValues_iff (hapi : config.headersApi.JoinsValues) :
    KeepsValues (generateFcgiRequestHeaders config txn) txn.headerFields ↔
      (∀ field ∈ txn.headerFields, (0 : UInt8) ∉ field.1) ∧
        LastHasAll txn.headerFields := by
  have hjoin : ascii ", " ≠ [] := by decide
  constructor
  · intro hkeeps
    have hnul := hkeeps.nulFree
    refine ⟨hnul, ?_⟩
    intro earlier last later hfields hlast
    have hin : last ∈ txn.headerFields := by simp [hfields]
    have hentry := hkeeps.joined last hin
    rw [generateFcgiRequestHeaders_last hnul hfields hlast, hapi, hfields,
      valuesNamed_last hlast] at hentry
    exact (intercalate_append_eq_iff hjoin _ _).mp (Option.some.inj hentry).symm
  · rintro ⟨hnul, hall⟩
    constructor
    · intro field hfield
      obtain ⟨earlier, last, later, hfields, hname, hlast⟩ :=
        exists_last ⟨field, hfield, rfl⟩
      rw [← hname] at hlast ⊢
      rw [generateFcgiRequestHeaders_last hnul hfields hlast, hapi]
      have hvalues := (intercalate_append_eq_iff hjoin _ _).mpr
        (hall earlier last later hfields hlast)
      rw [hfields, valuesNamed_last hlast, hvalues]
    · intro key hin hkey
      rw [Std.TreeMap.mem_iff_isSome_getElem?,
        generateFcgiRequestHeaders_http hkey] at hin
      by_contra hnone
      rw [Assignments.last_eq_none_iff.mpr] at hin
      · contradiction
      · intro p hp heq
        obtain ⟨field, hfield, rfl⟩ := List.mem_map.mp hp
        exact hnone
          ⟨field, hfield, heq.symm.trans (httpName_eq (hnul field hfield))⟩

end

namespace RequestHeadersWitness

/-- A cookie sent in two fields. -/
def cookies : ClientRequest :=
  { RegistryWitness.txn (ascii "GET") with
    fields := [(ascii "Cookie", [ascii "a=1"]), (ascii "cookie", [ascii "b=2"])] }

theorem not_always_keepsValues :
    ¬ ∀ (config : FcgiPluginConfig) (txn : ClientRequest),
      config.headersApi.JoinsValues →
      (∀ field ∈ txn.headerFields, (0 : UInt8) ∉ field.1) →
      KeepsValues (generateFcgiRequestHeaders config txn) txn.headerFields := by
  intro h
  have hkeeps := h RegistryWitness.config cookies (fun _ _ => rfl) (by decide)
  have hentry := hkeeps.joined (ascii "Cookie", [ascii "a=1"]) (by decide)
  exact absurd hentry (by decide +kernel)

/-- Two fields of different names, one of them with two values. -/
def plainFields : ClientRequest :=
  { RegistryWitness.txn (ascii "GET") with
    fields := [(ascii "Accept", [ascii "a", ascii "b"]),
      (ascii "Host", [ascii "h"])] }

theorem keepsValues_plainFields :
    KeepsValues (generateFcgiRequestHeaders RegistryWitness.config plainFields)
        plainFields.headerFields ↔
      (∀ field ∈ plainFields.headerFields, (0 : UInt8) ∉ field.1) ∧
        LastHasAll plainFields.headerFields :=
  @keepsValues_iff RegistryWitness.config plainFields (fun _ _ => rfl)

end RequestHeadersWitness

/-! ### Entries that the client cannot touch -/

/-- Two requests with the same method and URL. -/
structure SameTarget (txn₁ txn₂ : ClientRequest) : Prop where
  method : txn₁.method = txn₂.method
  path : txn₁.path = txn₂.path
  query : txn₁.query = txn₂.query

/-- The entries that the plugin sets depend on the method and URL only. -/
theorem SameTarget.serverEntries {txn₁ txn₂ : ClientRequest}
    (h : SameTarget txn₁ txn₂) (config : FcgiPluginConfig) :
    serverEntries config txn₁ = serverEntries config txn₂ := by
  have hscript : requestScript config txn₁ = requestScript config txn₂ := by
    rw [requestScript, requestScript, h.path]
  simp only [AtsFastcgi.serverEntries, hscript, h.method, h.query]

theorem getElem?_copyField (api : HeadersApi) (txn : ClientRequest)
    {field key other : Bytes} (m : StringMap) (hne : key ≠ other) :
    (copyField api txn field key m)[other]? = m[other]? := by
  unfold copyField
  split
  · rw [Std.TreeMap.getElem?_insert]
    simp [hne]
  · rfl

/-- For a POST two more entries are made. -/
theorem getElem?_postHeaders (api : HeadersApi) (txn : ClientRequest)
    (m : StringMap) {key : Bytes} (hlength : key ≠ ascii "CONTENT_LENGTH")
    (htype : key ≠ ascii "CONTENT_TYPE") :
    (postHeaders api txn m)[key]? = m[key]? := by
  have hlast : ∀ m : StringMap,
      (m.insertIfNew (ascii "CONTENT_LENGTH") [])[key]? = m[key]? := by
    intro m
    simp [Std.TreeMap.getElem?_insertIfNew, hlength.symm]
  unfold postHeaders
  rw [hlast]
  split
  · rw [getElem?_copyField api txn _ htype.symm,
      getElem?_copyField api txn _ hlength.symm]
  · rfl

/-- Parameters that the plugin sets from its configuration and the URL. -/
def trustedNames : List Bytes :=
  [ascii "DOCUMENT_ROOT", ascii "SCRIPT_FILENAME", ascii "SCRIPT_NAME",
    ascii "REQUEST_METHOD", ascii "REQUEST_URI", ascii "QUERY_STRING",
    ascii "REMOTE_ADDR", ascii "FCGI_ROLE"]

section

variable {config : FcgiPluginConfig} {txn₁ txn₂ : ClientRequest}

theorem requestParams_congr (h : SameTarget txn₁ txn₂) {key : Bytes}
    (hkey : ¬ ascii "HTTP_" <+: key)
    (hbody : txn₁.method = ascii "POST" →
      key ≠ ascii "CONTENT_LENGTH" ∧ key ≠ ascii "CONTENT_TYPE") :
    (requestParams config txn₁)[key]? = (requestParams config txn₂)[key]? := by
  have hserver : (generateFcgiRequestHeaders config txn₁)[key]? =
      (generateFcgiRequestHeaders config txn₂)[key]? := by
    rw [generateFcgiRequestHeaders_other hkey,
      generateFcgiRequestHeaders_other hkey, h.serverEntries config]
  by_cases hpost : txn₁.method = ascii "POST"
  · obtain ⟨hlength, htype⟩ := hbody hpost
    simp only [requestParams, if_pos hpost, if_pos (h.method ▸ hpost)]
    rw [getElem?_postHeaders _ txn₁ _ hlength htype,
      getElem?_postHeaders _ txn₂ _ hlength htype]
    exact hserver
  · have hpost₂ : ¬ txn₂.method = ascii "POST" := h.method ▸ hpost
    rw [requestParams_of_not_post hpost, requestParams_of_not_post hpost₂]
    exact hserver

/-- The header fields of a client reach no parameter outside `HTTP_`, except
for the two that describe the body of a POST. -/
theorem requestHeaders_independent (h : SameTarget txn₁ txn₂)
    (requestId₁ requestId₂ : Nat) :
    (∀ key : Bytes, ¬ ascii "HTTP_" <+: key →
      (txn₁.method = ascii "POST" →
        key ≠ ascii "CONTENT_LENGTH" ∧ key ≠ ascii "CONTENT_TYPE") →
      (FcgiClientRequest.new config requestId₁ txn₁).requestHeaders[key]? =
        (FcgiClientRequest.new config requestId₂ txn₂).requestHeaders[key]?) ∧
      ∀ key ∈ trustedNames,
        (FcgiClientRequest.new config requestId₁ txn₁).requestHeaders[key]? =
          (FcgiClientRequest.new config requestId₂ txn₂).requestHeaders[key]? := by
  have hnames : ∀ key ∈ trustedNames, ¬ ascii "HTTP_" <+: key ∧
      key ≠ ascii "CONTENT_LENGTH" ∧ key ≠ ascii "CONTENT_TYPE" := by
    decide
  simp only [FcgiClientRequest.new_requestHeaders]
  constructor
  · intro key hkey hbody
    exact requestParams_congr h hkey hbody
  · intro key hin
    obtain ⟨hkey, hbody⟩ := hnames key hin
    exact requestParams_congr h hkey fun _ => hbody

end

namespace RequestHeadersWitness

/-- The same `GET` with and without the cookies. -/
theorem cookies_independent :
    SameTarget (RegistryWitness.txn (ascii "GET")) cookies ∧
      ∀ key ∈ trustedNames,
        (FcgiClientRequest.new RegistryWitness.config 1
            (RegistryWitness.txn (ascii "GET"))).requestHeaders[key]? =
          (FcgiClientRequest.new RegistryWitness.config 2
            cookies).requestHeaders[key]? :=
  ⟨⟨rfl, rfl, rfl⟩,
    (@requestHeaders_independent RegistryWitness.config _ _
      (⟨rfl, rfl, rfl⟩ :
        SameTarget (RegistryWitness.txn (ascii "GET")) cookies) 1 2).2⟩

end RequestHeadersWitness

end AtsFastcgi

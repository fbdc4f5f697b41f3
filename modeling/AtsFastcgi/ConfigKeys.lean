/-
The two key lookups of `fcgi_config.cc`: a token is compared with each name on
the token's own length, so a token selects the first name it is a prefix of.
-/
import AtsFastcgi.Config
import AtsFastcgi.RequestBody
import Mathlib.Data.List.Find

namespace AtsFastcgi

theorem strncmpEq_self (a : Bytes) (n : Nat) : strncmpEq a a n = true := by
  simp [strncmpEq]

/-- A comparison that ends within the first string. -/
theorem strncmpEq_iff_of_le {a b : Bytes} {n : Nat} (ha : (0 : UInt8) ∉ a)
    (hn : n ≤ a.length) : strncmpEq a b n = true ↔ a.take n <+: b := by
  have hlen : (a.take n).length = n := List.length_take_of_le hn
  rw [strncmpEq, decide_eq_true_iff, List.take_append_of_le_length hn]
  constructor
  · intro heq
    have hfits : n ≤ b.length := by
      by_contra hlong
      apply ha
      apply List.mem_of_mem_take (i := n)
      rw [heq, List.take_of_length_le (by simp; omega)]
      simp
    rw [List.take_append_of_le_length hfits] at heq
    rw [heq]
    exact List.take_prefix n b
  · intro hprefix
    have hfits := hprefix.length_le
    rw [hlen] at hfits
    rw [List.take_append_of_le_length hfits]
    exact (List.prefix_iff_eq_take.mp hprefix).trans (by rw [hlen])

/-- A comparison that takes in the end of the first string. -/
theorem strncmpEq_iff_of_lt {a b : Bytes} {n : Nat} (hb : (0 : UInt8) ∉ b)
    (hn : a.length < n) : strncmpEq a b n = true ↔ a = b := by
  have hwhole : (a ++ [0]).take n = a ++ [0] :=
    List.take_of_length_le (by simp; omega)
  constructor
  · intro heq
    rw [strncmpEq, decide_eq_true_iff, hwhole] at heq
    have hprefix : a ++ [0] <+: b ++ [0] := heq ▸ List.take_prefix n _
    rcases List.prefix_concat_iff.mp hprefix with hsame | hinside
    · exact List.append_cancel_right hsame
    · exact absurd (hinside.subset (by simp)) hb
  · rintro rfl
    exact strncmpEq_self a n

section

variable {K : Type}

/-- What the lookups rely on in their tables. -/
structure NameTable (names : List (Bytes × K × TSRecordDataType)) : Prop where
  prefixFree : ∀ entry ∈ names, ∀ other ∈ names, entry.1 <+: other.1 →
    entry = other
  nulFree : ∀ entry ∈ names, (0 : UInt8) ∉ entry.1
  short : ∀ entry ∈ names, entry.1.length < 100

/-- A lookup that accepts the names of its table and nothing else. -/
def AcceptsNames (names : List (Bytes × K × TSRecordDataType)) (token : Bytes)
    (found : Option (K × TSRecordDataType)) : Prop :=
  ∀ setting, found = some setting ↔ (token, setting) ∈ names

/-- The bytes of a token that are compared: its length is an `int`. -/
def comparedPart (token : Bytes) : Bytes :=
  token.take (sizeT (cInt token.length))

/-- The token does not abbreviate a name. -/
def Unabbreviated (names : List (Bytes × K × TSRecordDataType))
    (token : Bytes) : Prop :=
  ∀ entry ∈ names, comparedPart token <+: entry.1 → token = entry.1

theorem comparedPart_of_lt {token : Bytes} (hlt : token.length < 2 ^ 31) :
    comparedPart token = token := by
  rw [comparedPart, cInt_of_lt hlt,
    sizeT_natCast (Nat.lt_trans hlt (by decide)), List.take_length]

/-- A length that does not fit into an `int` counts as more than any name
has. -/
theorem le_of_length_lt_sizeT {token : Bytes}
    (hlt : token.length < sizeT (cInt token.length)) :
    2 ^ 31 ≤ token.length := by
  by_contra hshort
  have hsmall : token.length < 2 ^ 31 := Nat.lt_of_not_le hshort
  rw [cInt_of_lt hsmall, sizeT_natCast (Nat.lt_trans hsmall (by decide))] at hlt
  exact Nat.lt_irrefl _ hlt

variable {names : List (Bytes × K × TSRecordDataType)} {token : Bytes}

/-- The comparison with one name. -/
theorem NameTable.compare_iff (table : NameTable names)
    (hnul : (0 : UInt8) ∉ token) {entry : Bytes × K × TSRecordDataType}
    (hentry : entry ∈ names) :
    strncmpEq token entry.1 (sizeT (cInt token.length)) = true ↔
      comparedPart token <+: entry.1 := by
  rcases Nat.lt_or_ge token.length (sizeT (cInt token.length)) with hlt | hle
  · have hlong := le_of_length_lt_sizeT hlt
    have hshort := table.short entry hentry
    have hwhole : comparedPart token = token :=
      List.take_of_length_le (Nat.le_of_lt hlt)
    rw [strncmpEq_iff_of_lt (table.nulFree entry hentry) hlt, hwhole]
    constructor
    · rintro rfl
      exact List.prefix_refl _
    · intro hprefix
      have hbound := hprefix.length_le
      omega
  · exact strncmpEq_iff_of_le hnul hle

/-- A token is found under the first name that its compared part begins. -/
theorem NameTable.findName_eq (table : NameTable names)
    (hnul : (0 : UInt8) ∉ token) :
    findName names token (-1) =
      (names.find? fun entry => (comparedPart token).isPrefixOf entry.1).map
        Prod.snd := by
  have hfind : names.find?
      (fun entry => strncmpEq token entry.1 (sizeT (cInt token.length))) =
      names.find? fun entry => (comparedPart token).isPrefixOf entry.1 := by
    apply List.find?_congr
    intro entry hentry
    rw [Bool.eq_iff_iff, table.compare_iff hnul hentry,
      List.isPrefixOf_iff_prefix]
  simp only [findName, if_pos]
  rw [hfind]

/-- An entry is found under its own name. -/
theorem NameTable.findName_of_mem (table : NameTable names)
    {setting : K × TSRecordDataType} (hin : (token, setting) ∈ names) :
    findName names token (-1) = some setting := by
  have hlt : token.length < 2 ^ 31 :=
    Nat.lt_trans (table.short (token, setting) hin) (by decide)
  have hself : (comparedPart token).isPrefixOf token = true := by
    rw [comparedPart_of_lt hlt]
    exact List.isPrefixOf_iff_prefix.mpr (List.prefix_refl token)
  rw [table.findName_eq (table.nulFree (token, setting) hin)]
  cases hfind : names.find?
      fun entry => (comparedPart token).isPrefixOf entry.1 with
  | none =>
      have hnone := List.find?_eq_none.mp hfind (token, setting) hin
      exact absurd hself hnone
  | some entry =>
      have hprefix := List.find?_some hfind
      rw [comparedPart_of_lt hlt, List.isPrefixOf_iff_prefix] at hprefix
      rw [← table.prefixFree (token, setting) hin entry
        (List.mem_of_find?_eq_some hfind) hprefix]
      rfl

/-- A lookup accepts exactly its names for the tokens that abbreviate none. -/
theorem NameTable.acceptsNames_iff (table : NameTable names)
    (hnul : (0 : UInt8) ∉ token) :
    AcceptsNames names token (findName names token (-1)) ↔
      Unabbreviated names token := by
  constructor
  · intro haccepts entry hentry hprefix
    obtain ⟨found, hfound⟩ :
        ∃ found, findName names token (-1) = some found := by
      rw [table.findName_eq hnul, ← Option.isSome_iff_exists, Option.isSome_map,
        List.find?_isSome]
      exact ⟨entry, hentry, List.isPrefixOf_iff_prefix.mpr hprefix⟩
    have hin := (haccepts found).mp hfound
    have hlt : token.length < 2 ^ 31 :=
      Nat.lt_trans (table.short (token, found) hin) (by decide)
    rw [comparedPart_of_lt hlt] at hprefix
    exact congrArg Prod.fst (table.prefixFree (token, found) hin entry hentry
      hprefix)
  · intro hfull setting
    constructor
    · intro hfound
      rw [table.findName_eq hnul, Option.map_eq_some_iff] at hfound
      obtain ⟨entry, hfind, rfl⟩ := hfound
      have hentry := List.mem_of_find?_eq_some hfind
      have hprefix := List.find?_some hfind
      rw [List.isPrefixOf_iff_prefix] at hprefix
      rw [hfull entry hentry hprefix]
      exact hentry
    · exact table.findName_of_mem

end

theorem configNames_table : NameTable configNames where
  prefixFree := by decide +kernel
  nulFree := by decide +kernel
  short := by decide +kernel

theorem paramNames_table : NameTable paramNames where
  prefixFree := by decide +kernel
  nulFree := by decide +kernel
  short := by decide +kernel

/-- The lookups of the two files accept exactly their full names for the tokens
that abbreviate none. -/
theorem configFind_acceptsNames_iff {token : Bytes}
    (hnul : (0 : UInt8) ∉ token) :
    (AcceptsNames configNames token (fcgiHttpTxnConfigFind token (-1)) ↔
      Unabbreviated configNames token) ∧
      (AcceptsNames paramNames token (fcgiParamConfigFind token (-1)) ↔
        Unabbreviated paramNames token) :=
  ⟨configNames_table.acceptsNames_iff hnul,
    paramNames_table.acceptsNames_iff hnul⟩

namespace ConfigKeysWitness

/-- A truncated key. -/
def truncated : Bytes := ascii "proxy.config.http.fcgi.host.server"

theorem not_always_acceptsNames :
    ¬ ∀ token : Bytes, token ≠ [] → (0 : UInt8) ∉ token →
      AcceptsNames configNames token (fcgiHttpTxnConfigFind token (-1)) := by
  intro h
  have haccepts := h truncated (by decide) (by decide +kernel)
  have hin := (haccepts (.serverIp, .string)).mp (by decide +kernel)
  exact absurd hin (by decide +kernel)

theorem full_acceptsNames :
    AcceptsNames configNames (ascii "proxy.config.http.fcgi.host.server_ip")
        (fcgiHttpTxnConfigFind
          (ascii "proxy.config.http.fcgi.host.server_ip") (-1)) ↔
      Unabbreviated configNames
        (ascii "proxy.config.http.fcgi.host.server_ip") :=
  (configFind_acceptsNames_iff (by decide +kernel)).1

end ConfigKeysWitness

end AtsFastcgi

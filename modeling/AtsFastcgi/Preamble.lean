/-
The request preamble read back.  A FastCGI server splits what
`createBeginRequest` has written into records and the contents of the
`FCGI_PARAMS` records into name-value pairs.
-/
import AtsFastcgi.Lib.StreamCode
import AtsFastcgi.RequestBody

namespace AtsFastcgi

/-! ### Name-value pairs -/

theorem byte2_toNat (x : Nat) : (byte2 x).toNat = x / 65536 % 256 := by
  have hmask : (x >>> 16) &&& 0xff = (x >>> 16) % 2 ^ 8 :=
    Nat.and_two_pow_sub_one_eq_mod _ 8
  rw [byte2, hmask, UInt8.toNat_ofNat', Nat.shiftRight_eq_div_pow]
  omega

theorem byte3_toNat {x : Nat} (hx : x < 2 ^ 31) :
    (byte3 x).toNat = x / 2 ^ 24 + 128 := by
  have hlt : x / 2 ^ 24 < 2 ^ 7 := by omega
  have hor : x / 2 ^ 24 ||| 0x80 = x / 2 ^ 24 + 128 := by
    rw [Nat.or_comm, Nat.add_comm]
    exact (Nat.two_pow_add_eq_or_of_lt hlt 1).symm
  rw [byte3, Nat.shiftRight_eq_div_pow, hor, UInt8.toNat_ofNat',
    Nat.mod_eq_of_lt]
  omega

/-- The length in front of a name or a value: one byte, or four of which the
first one has its high bit set. -/
def readLength : Bytes → Option ({ n : Nat // n < 2 ^ 31 } × Bytes)
  | [] => none
  | b :: rest =>
      if hshort : b.toNat < 128 then
        some (⟨b.toNat, Nat.lt_trans hshort (by decide)⟩, rest)
      else
        match rest with
        | b2 :: b1 :: b0 :: left =>
            some (⟨(b.toNat - 128) * 2 ^ 24 + b2.toNat * 2 ^ 16 +
              b1.toNat * 2 ^ 8 + b0.toNat, by
                have h3 := b.toNat_lt
                have h2 := b2.toNat_lt
                have h1 := b1.toNat_lt
                have h0 := b0.toNat_lt
                omega⟩, left)
        | _ => none

theorem readLength_lengthBytes {n : Nat} (hn : n < 2 ^ 31) (rest : Bytes) :
    readLength (lengthBytes n ++ rest) = some (⟨n, hn⟩, rest) := by
  unfold lengthBytes
  split
  · next hshort =>
      have hbyte : (byte0 n).toNat = n := by
        rw [byte0_toNat]
        omega
      simp [readLength, hbyte, hshort]
  · have h3 := byte3_toNat hn
    have hlong : ¬ (byte3 n).toNat < 128 := by omega
    have hvalue : ((byte3 n).toNat - 128) * 2 ^ 24 +
        (byte2 n).toNat * 2 ^ 16 + (byte1 n).toNat * 2 ^ 8 +
        (byte0 n).toNat = n := by
      rw [h3, byte2_toNat, byte1_toNat, byte0_toNat]
      omega
    simp only [List.cons_append, List.nil_append, readLength]
    rw [dif_neg hlong]
    exact congrArg (fun m => some (m, rest)) (Subtype.ext hvalue)

theorem readLength_le {stream rest : Bytes} {n : { n : Nat // n < 2 ^ 31 }}
    (hread : readLength stream = some (n, rest)) :
    (lengthBytes n.1).length + rest.length ≤ stream.length := by
  cases stream with
  | nil => contradiction
  | cons b tail =>
      simp only [readLength] at hread
      split at hread
      · next hshort =>
          simp only [Option.some.injEq, Prod.mk.injEq] at hread
          obtain ⟨rfl, rfl⟩ := hread
          simp only [lengthBytes, if_pos hshort, List.length_cons,
            List.length_nil]
          omega
      · split at hread
        · simp only [Option.some.injEq, Prod.mk.injEq] at hread
          obtain ⟨-, rfl⟩ := hread
          have hfour : (lengthBytes n.1).length ≤ 4 := by
            unfold lengthBytes
            split <;> simp
          simp only [List.length_cons]
          omega
        · contradiction

/-- A name-value pair that has an encoding. -/
structure NameValue where
  name : Bytes
  value : Bytes
  name_lt : name.length < 2 ^ 31
  value_lt : value.length < 2 ^ 31
deriving DecidableEq

namespace NameValue

def encode (p : NameValue) : Bytes := serializeNameValue p.name p.value

theorem encode_eq (p : NameValue) :
    p.encode = lengthBytes p.name.length ++ lengthBytes p.value.length ++
      p.name ++ p.value := by
  have hword : 2 ^ 31 < 2 ^ 32 := by decide
  have hname := Nat.mod_eq_of_lt (Nat.lt_trans p.name_lt hword)
  have hvalue := Nat.mod_eq_of_lt (Nat.lt_trans p.value_lt hword)
  simp only [encode, serializeNameValue, hname, hvalue, List.take_length]

/-- Read one pair off the front: the two lengths, the name and the value. -/
def decode (stream : Bytes) : Option (NameValue × Bytes) :=
  match readLength stream with
  | some (nameLen, rest) =>
      match readLength rest with
      | some (valueLen, rest) =>
          if nameLen.1 + valueLen.1 ≤ rest.length then
            some (
              { name := rest.take nameLen.1
                value := (rest.drop nameLen.1).take valueLen.1
                name_lt := Nat.lt_of_le_of_lt (List.length_take_le _ _)
                  nameLen.2
                value_lt := Nat.lt_of_le_of_lt (List.length_take_le _ _)
                  valueLen.2 },
              rest.drop (nameLen.1 + valueLen.1))
          else none
      | none => none
  | none => none

theorem decode_encode (p : NameValue) (rest : Bytes) :
    decode (p.encode ++ rest) = some (p, rest) := by
  have hname := readLength_lengthBytes p.name_lt
  have hvalue := readLength_lengthBytes p.value_lt
  simp [decode, encode_eq, hname, hvalue]

theorem encode_le {stream rest : Bytes} {p : NameValue}
    (hread : decode stream = some (p, rest)) :
    p.encode.length + rest.length ≤ stream.length := by
  unfold decode at hread
  split at hread
  · next nameLen left hname =>
      split at hread
      · next valueLen body hvalue =>
          split at hread
          · next hfits =>
              simp only [Option.some.injEq, Prod.mk.injEq] at hread
              obtain ⟨rfl, rfl⟩ := hread
              have hnameLe := readLength_le hname
              have hvalueLe := readLength_le hvalue
              have htake : (body.take nameLen.1).length = nameLen.1 := by
                rw [List.length_take]
                omega
              have hdrop : ((body.drop nameLen.1).take valueLen.1).length =
                  valueLen.1 := by
                rw [List.length_take, List.length_drop]
                omega
              simp only [encode_eq, htake, hdrop, List.length_append,
                List.length_drop]
              omega
          · contradiction
      · contradiction
  · contradiction

/-- The contents of the `FCGI_PARAMS` records. -/
def code : StreamCode NameValue UInt8 where
  encode := encode
  decode := decode
  decode_encode := decode_encode
  encode_le := encode_le
  encode_ne_nil p := by
    simp only [encode_eq, lengthBytes]
    split <;> simp

/-- The parameters that a list of pairs sets. -/
def params (pairs : List NameValue) : StringMap :=
  pairs.foldl (fun m p => m.insert p.name p.value) ∅

/-- What is set comes from a pair. -/
theorem of_foldl_insert {pairs : List NameValue} {m : StringMap}
    {name value : Bytes}
    (hget : (pairs.foldl (fun m p => m.insert p.name p.value) m)[name]? =
      some value) :
    (∃ p ∈ pairs, p.name = name ∧ p.value = value) ∨ m[name]? = some value := by
  induction pairs generalizing m with
  | nil => exact .inr hget
  | cons p rest ih =>
      rcases ih hget with ⟨q, hq, hpair⟩ | hold
      · exact .inl ⟨q, List.mem_cons_of_mem p hq, hpair⟩
      · rw [Std.TreeMap.getElem?_insert] at hold
        split at hold
        · next hname =>
            exact .inl ⟨p, List.mem_cons_self,
              Std.LawfulEqCmp.eq_of_compare hname, Option.some.inj hold⟩
        · exact .inr hold

theorem foldl_insert_of_ne {pairs : List NameValue} {name : Bytes}
    (hne : ∀ p ∈ pairs, p.name ≠ name) (m : StringMap) :
    (pairs.foldl (fun m p => m.insert p.name p.value) m)[name]? = m[name]? := by
  induction pairs generalizing m with
  | nil => rfl
  | cons p rest ih =>
      obtain ⟨hp, hrest⟩ := List.forall_mem_cons.mp hne
      rw [List.foldl_cons, ih hrest, Std.TreeMap.getElem?_insert, if_neg]
      exact fun hname => hp (Std.LawfulEqCmp.eq_of_compare hname)

/-- With different names every pair is set. -/
theorem foldl_insert_of_mem {pairs : List NameValue} {p : NameValue}
    (hnames : pairs.Pairwise fun p q => p.name ≠ q.name) (hp : p ∈ pairs)
    (m : StringMap) :
    (pairs.foldl (fun m p => m.insert p.name p.value) m)[p.name]? =
      some p.value := by
  induction pairs generalizing m with
  | nil => exact absurd hp List.not_mem_nil
  | cons q rest ih =>
      obtain ⟨hq, hrest⟩ := List.pairwise_cons.mp hnames
      rw [List.foldl_cons]
      rcases List.mem_cons.mp hp with rfl | hin
      · rw [foldl_insert_of_ne (fun r hr => (hq r hr).symm),
          Std.TreeMap.getElem?_insert_self]
      · exact ih hrest hin _

/-- The pairs of a map set the map. -/
theorem params_toList {pairs : List NameValue} {m : StringMap}
    (hpairs : pairs.map (fun p => (p.name, p.value)) = m.toList)
    (name : Bytes) : (params pairs)[name]? = m[name]? := by
  have hnames : pairs.Pairwise fun p q => p.name ≠ q.name := by
    have hdistinct := m.distinct_keys_toList
    rw [← hpairs, List.pairwise_map] at hdistinct
    refine hdistinct.imp fun hne heq => hne ?_
    rw [heq]
    exact Std.ReflCmp.compare_self
  cases hget : m[name]? with
  | none =>
      rw [params, foldl_insert_of_ne]
      · exact Std.TreeMap.getElem?_emptyc
      · rintro p hp rfl
        have hin : (p.name, p.value) ∈ m.toList :=
          hpairs ▸ List.mem_map_of_mem hp
        rw [Std.TreeMap.mem_toList_iff_getElem?_eq_some.mp hin] at hget
        contradiction
  | some value =>
      have hin := Std.TreeMap.mem_toList_iff_getElem?_eq_some.mpr hget
      rw [← hpairs] at hin
      obtain ⟨p, hp, heq⟩ := List.mem_map.mp hin
      simp only [Prod.mk.injEq] at heq
      obtain ⟨rfl, rfl⟩ := heq
      exact foldl_insert_of_mem hnames hp ∅

end NameValue

/-! ### The records -/

/-- The bytes that a length takes on the wire. -/
def lengthSize (n : Nat) : Nat := if n < 128 then 1 else 4

/-- The bytes that a name and a value of these lengths take on the wire. -/
def paramSize (nl vl : Nat) : Nat := lengthSize nl + lengthSize vl + nl + vl

/-- The bytes that the parameters take on the wire. -/
def paramsSize (m : StringMap) : Nat :=
  (m.toList.map fun p => paramSize p.1.length p.2.length).sum

/-- The bytes that are written for the parameters, with lengths of 32 bits. -/
def writtenSize (m : StringMap) : Nat :=
  (m.toList.map fun p =>
    paramSize (p.1.length % 2 ^ 32) (p.2.length % 2 ^ 32)).sum

theorem lengthBytes_length (n : Nat) : (lengthBytes n).length = lengthSize n := by
  unfold lengthBytes lengthSize
  split <;> rfl

theorem NameValue.code_encode_length (p : NameValue) :
    (NameValue.code.encode p).length =
      paramSize p.name.length p.value.length := by
  have hencode : NameValue.code.encode p = p.encode := rfl
  rw [hencode, p.encode_eq]
  simp only [List.length_append, lengthBytes_length, paramSize]

theorem serializeNameValue_length (name value : Bytes) :
    (serializeNameValue name value).length =
      paramSize (name.length % 2 ^ 32) (value.length % 2 ^ 32) := by
  simp only [serializeNameValue, List.length_append, lengthBytes_length,
    paramSize, List.length_take, Nat.min_eq_left (Nat.mod_le _ _)]

/-- What `serializeNameValue` returns: the bytes it has written, in 32 bits. -/
def serializedSize (name value : Bytes) : Nat :=
  (serializeNameValue name value).length % 2 ^ 32

/-- Remainders add up to the whole sum only where nothing is cut off. -/
theorem sum_map_mod_eq_iff {α : Type} (f : α → Nat) {m : Nat} (hm : 0 < m)
    (l : List α) :
    (l.map fun x => f x % m).sum = (l.map f).sum ↔ ∀ x ∈ l, f x < m := by
  induction l with
  | nil => simp
  | cons x rest ih =>
      have hle : (rest.map fun x => f x % m).sum ≤ (rest.map f).sum :=
        List.sum_le_sum fun y _ => Nat.mod_le (f y) m
      have hmod := Nat.mod_le (f x) m
      have hfirst : f x % m = f x ↔ f x < m := Nat.mod_eq_iff_lt hm.ne'
      rw [List.map_cons, List.sum_cons, List.map_cons, List.sum_cons,
        List.forall_mem_cons, ← ih, ← hfirst]
      omega

/-- A FastCGI server reads the pairs back, and the sizes that are returned add
up to what was written exactly if no pair takes 2^32 bytes. -/
theorem NameValue.serialize_invertible (pairs : List NameValue) :
    NameValue.code.decodeAll
        (pairs.flatMap fun p => serializeNameValue p.name p.value) =
        some pairs ∧
      ((pairs.map fun p => serializedSize p.name p.value).sum =
        (pairs.flatMap fun p => serializeNameValue p.name p.value).length ↔
        ∀ p ∈ pairs, (serializeNameValue p.name p.value).length < 2 ^ 32) := by
  refine ⟨NameValue.code.decodeAll_flatMap pairs, ?_⟩
  rw [List.length_flatMap]
  exact sum_map_mod_eq_iff
    (fun p : NameValue => (serializeNameValue p.name p.value).length)
    (Nat.two_pow_pos 32) pairs

theorem FcgiClientRequest.nameValues_length (client : FcgiClientRequest) :
    client.nameValues.length = writtenSize client.requestHeaders := by
  simp only [nameValues, List.length_flatMap, serializeNameValue_length,
    writtenSize]

theorem lengthSize_mono {n m : Nat} (hle : n ≤ m) :
    lengthSize n ≤ lengthSize m := by
  unfold lengthSize
  split <;> split <;> omega

theorem paramSize_mod_le (nl vl : Nat) :
    paramSize (nl % 2 ^ 32) (vl % 2 ^ 32) ≤ paramSize nl vl := by
  have hname := Nat.mod_le nl (2 ^ 32)
  have hvalue := Nat.mod_le vl (2 ^ 32)
  have hnameSize := lengthSize_mono hname
  have hvalueSize := lengthSize_mono hvalue
  unfold paramSize
  omega

/-- Cutting the lengths down writes no more than the parameters take. -/
theorem writtenSize_le (m : StringMap) : writtenSize m ≤ paramsSize m := by
  apply List.sum_le_sum
  intro p _
  exact paramSize_mod_le _ _

theorem Record.flatMap_content_lt {recs : List Record}
    (hone : recs.length ≤ 1) : (recs.flatMap Record.content).length < 65536 := by
  cases recs with
  | nil => exact Nat.succ_pos 65535
  | cons r rest =>
      obtain rfl := List.length_eq_zero_iff.mp
        (Nat.le_zero.mp (Nat.le_of_succ_le_succ hone))
      rw [List.flatMap_singleton]
      exact r.content_lt

/-- The bytes are a `BEGIN_REQUEST` record, the records of a parameter stream
and an empty record that ends it. -/
structure PreambleRecords (bytes : Bytes) (requestId : Nat) (m : StringMap)
    (opening : Record) (stream : List Record) (last : Record)
    (pairs : List NameValue) : Prop where
  split : Record.code.decodeAll bytes = some (opening :: stream ++ [last])
  begins : opening.type = FCGI_BEGIN_REQUEST ∧
    ∃ reserved : Bytes, reserved.length = 5 ∧
      opening.content = 0 :: FCGI_RESPONDER :: FCGI_KEEP_CONN :: reserved
  types : ∀ r ∈ stream, r.type = FCGI_PARAMS
  ends : last.type = FCGI_PARAMS ∧ last.content = []
  ids : ∀ r ∈ opening :: stream ++ [last], r.requestId = requestId
  decoded : NameValue.code.decodeAll (stream.flatMap Record.content) = some pairs
  params : ∀ name : Bytes, (NameValue.params pairs)[name]? = m[name]?

/-- A FastCGI server reads the request `requestId` with the parameters `m`. -/
def ReadsBack (bytes : Bytes) (requestId : Nat) (m : StringMap) : Prop :=
  ∃ opening stream last pairs,
    PreambleRecords bytes requestId m opening stream last pairs

namespace FcgiClientRequest

variable (client : FcgiClientRequest)

/-- The first record of the preamble. -/
def beginRecord : Record where
  version := FCGI_VERSION_1
  type := FCGI_BEGIN_REQUEST
  requestIdB1 := byte1 client.requestId
  requestIdB0 := byte0 client.requestId
  reserved := 0
  content := beginRequestBody
  padding := []
  content_lt := by decide
  padding_lt := Record.nil_padding_lt

theorem beginRecord_requestId :
    client.beginRecord.requestId = client.requestId % 65536 :=
  byte1_byte0_toNat client.requestId

/-- A record of the parameter stream. -/
def paramsRecord (data : Bytes) (hdata : data.length < 65536) : Record where
  version := FCGI_VERSION_1
  type := FCGI_PARAMS
  requestIdB1 := byte1 client.requestId
  requestIdB0 := byte0 client.requestId
  reserved := 0
  content := data
  padding := []
  content_lt := hdata
  padding_lt := Record.nil_padding_lt

theorem paramsRecord_requestId (data : Bytes) (hdata : data.length < 65536) :
    (client.paramsRecord data hdata).requestId = client.requestId % 65536 :=
  byte1_byte0_toNat client.requestId

/-- Parameters that fit into one record are announced as they are. -/
theorem preamble_eq (hfits : client.nameValues.length < 65536) :
    client.preamble = Record.code.encodeAll
      [client.beginRecord, client.paramsRecord client.nameValues hfits,
        client.paramsRecord [] (by decide)] := by
  simp only [PrefixCode.encodeAll_cons, PrefixCode.encodeAll_nil,
    Record.code_encode, Record.encode, preamble, List.append_nil,
    List.append_assoc, paramsRecord, beginRecord]
  rfl

theorem preamble_length :
    client.preamble.length = 32 + writtenSize client.requestHeaders := by
  simp only [preamble, List.length_append, FcgiHeader.bytes_length,
    nameValues_length]
  have hbody : beginRequestBody.length = 8 := rfl
  omega

/-- The parameters of a map that fit into one record have encodings. -/
theorem exists_pairs (hsize : paramsSize client.requestHeaders < 65536) :
    ∃ pairs : List NameValue,
      pairs.map (fun p => (p.name, p.value)) =
        client.requestHeaders.toList ∧
      pairs.flatMap NameValue.encode = client.nameValues := by
  have hshort : ∀ p ∈ client.requestHeaders.toList,
      p.1.length < 2 ^ 31 ∧ p.2.length < 2 ^ 31 := by
    intro p hp
    have hle : paramSize p.1.length p.2.length ≤
        paramsSize client.requestHeaders :=
      List.le_sum_of_mem (List.mem_map_of_mem
        (f := fun p : Bytes × Bytes => paramSize p.1.length p.2.length) hp)
    rw [paramSize] at hle
    omega
  refine ⟨client.requestHeaders.toList.pmap
    (fun p hp => ⟨p.1, p.2, hp.1, hp.2⟩) hshort, ?_, ?_⟩
  · rw [List.map_pmap]
    exact List.pmap_eq_self.mpr fun _ _ => rfl
  · rw [nameValues, List.flatMap_def, List.flatMap_def, List.map_pmap]
    exact congrArg List.flatten (@List.pmap_eq_map _ _ _
      (fun p : Bytes × Bytes => serializeNameValue p.1 p.2) _ hshort)

/-- Short parameters are read back. -/
theorem readsBack_preamble (hid : client.requestId < 65536)
    (hsize : paramsSize client.requestHeaders < 65536) :
    ReadsBack client.preamble client.requestId client.requestHeaders := by
  have hfits : client.nameValues.length < 65536 := by
    rw [nameValues_length]
    exact Nat.lt_of_le_of_lt (writtenSize_le _) hsize
  obtain ⟨pairs, hpairs, hencode⟩ := client.exists_pairs hsize
  refine ⟨client.beginRecord, [client.paramsRecord client.nameValues hfits],
    client.paramsRecord [] (by decide), pairs, ?_⟩
  constructor
  · rw [PrefixCode.decodeAll_eq_some_iff]
    exact client.preamble_eq hfits
  · exact ⟨rfl, [0, 0, 0, 0, 0], rfl, rfl⟩
  · simp [paramsRecord]
  · exact ⟨rfl, rfl⟩
  · have hmod := Nat.mod_eq_of_lt hid
    simp [beginRecord_requestId, paramsRecord_requestId, hmod]
  · have hcontent : [client.paramsRecord client.nameValues hfits].flatMap
        Record.content = pairs.flatMap NameValue.code.encode := by
      rw [List.flatMap_singleton]
      exact hencode.symm
    rw [hcontent]
    exact NameValue.code.decodeAll_flatMap pairs
  · exact NameValue.params_toList hpairs

/-- What is read back as the parameters has at least their size. -/
theorem paramsSize_le {stream : Bytes} {pairs : List NameValue} {m : StringMap}
    (hdecoded : NameValue.code.decodeAll stream = some pairs)
    (hparams : ∀ name : Bytes, (NameValue.params pairs)[name]? = m[name]?) :
    paramsSize m ≤ stream.length := by
  have hsub : m.toList ⊆ pairs.map fun p => (p.name, p.value) := by
    rintro ⟨name, value⟩ hin
    have hget := Std.TreeMap.mem_toList_iff_getElem?_eq_some.mp hin
    rw [← hparams] at hget
    rcases NameValue.of_foldl_insert hget with ⟨p, hp, rfl, rfl⟩ | hnone
    · exact List.mem_map_of_mem hp
    · exact absurd hnone (by simp)
  have hnodup : m.toList.Nodup := by
    refine m.distinct_keys_toList.imp fun hne heq => hne ?_
    rw [heq]
    exact Std.ReflCmp.compare_self
  have hle := List.sum_map_le_of_subset hnodup hsub
    fun p => paramSize p.1.length p.2.length
  have hsum := NameValue.code.encode_le_of_decodeAll hdecoded
  have hsame : (pairs.map fun p => (NameValue.code.encode p).length) =
      (pairs.map fun p => (p.name, p.value)).map
        fun p => paramSize p.1.length p.2.length := by
    rw [List.map_map]
    refine List.map_congr_left fun p _ => ?_
    simp only [NameValue.code_encode_length, Function.comp_apply]
  rw [hsame] at hsum
  exact Nat.le_trans hle hsum

/-- Longer parameters would take a second record, for which there is no
room. -/
theorem paramsSize_of_readsBack
    (h : ReadsBack client.preamble client.requestId client.requestHeaders) :
    paramsSize client.requestHeaders < 65536 := by
  obtain ⟨opening, stream, last, pairs, hrecords⟩ := h
  have hlen := congrArg List.length
    (Record.code.decodeAll_eq_some_iff.mp hrecords.split)
  obtain ⟨-, reserved, hreserved, hopening⟩ := hrecords.begins
  rw [client.preamble_length, Record.encodeAll_length] at hlen
  simp only [List.flatMap_append, List.flatMap_cons, List.cons_append,
    List.length_append, List.length_cons, List.flatMap_nil, List.append_nil,
    List.length_nil, hopening, hreserved, hrecords.ends.2] at hlen
  have hsize := paramsSize_le hrecords.decoded hrecords.params
  have hwritten := writtenSize_le client.requestHeaders
  exact Nat.lt_of_le_of_lt hsize
    (Record.flatMap_content_lt (by omega : stream.length ≤ 1))

/-- What `createBeginRequest` writes for a request id that fits its field is
read back as the request exactly if the parameters take fewer than 65536
bytes. -/
theorem createBeginRequest_readsBack_iff (hid : client.requestId < 65536) :
    (∃ bytes, client.createBeginRequest.buff = client.buff ++ bytes ∧
      ReadsBack bytes client.requestId client.requestHeaders) ↔
      paramsSize client.requestHeaders < 65536 := by
  constructor
  · rintro ⟨bytes, hwritten, hread⟩
    obtain rfl := List.append_cancel_left hwritten
    exact client.paramsSize_of_readsBack hread
  · intro hsize
    exact ⟨client.preamble, rfl, client.readsBack_preamble hid hsize⟩

end FcgiClientRequest

/-- A parameter is no longer than all of them are on the wire. -/
theorem StringMap.length_get_le (m : StringMap) (key : Bytes) :
    (m.get key).length ≤ paramsSize m := by
  rw [StringMap.get, Std.TreeMap.getD_eq_getD_getElem?]
  cases hget : m[key]? with
  | none => exact Nat.zero_le _
  | some value =>
      have hin := Std.TreeMap.mem_toList_iff_getElem?_eq_some.mpr hget
      have hle : paramSize key.length value.length ≤ paramsSize m :=
        List.le_sum_of_mem (List.mem_map_of_mem
          (f := fun p : Bytes × Bytes => paramSize p.1.length p.2.length) hin)
      have hsize : value.length ≤ paramSize key.length value.length :=
        Nat.le_add_left _ _
      exact Nat.le_trans hsize hle

theorem generateFcgiRequestHeaders_query (config : FcgiPluginConfig)
    (txn : ClientRequest) :
    StringMap.get (generateFcgiRequestHeaders config txn)
      (ascii "QUERY_STRING") = txn.query := by
  unfold generateFcgiRequestHeaders
  iterate 9 rw [StringMap.get_insert, if_neg (by decide)]
  rw [StringMap.get_insert, if_pos rfl]

namespace PreambleWitness

/-- A `GET` with a query string of 65536 bytes. -/
def txn : ClientRequest :=
  { RegistryWitness.txn (ascii "GET") with query := List.replicate 65536 65 }

def wide : FcgiClientRequest :=
  FcgiClientRequest.new RegistryWitness.config 1 txn

theorem wide_eq : wide.requestId = 1 ∧ wide.requestHeaders =
    generateFcgiRequestHeaders RegistryWitness.config txn := by
  have hget : ¬ StringMap.get (generateFcgiRequestHeaders
      RegistryWitness.config txn) (ascii "REQUEST_METHOD") = ascii "POST" := by
    rw [generateFcgiRequestHeaders_method]
    exact (by decide : ¬ ascii "GET" = ascii "POST")
  rw [wide, FcgiClientRequest.new]
  simp only [if_neg hget, and_self]

/-- Every name and every value can be given a length. -/
def Encodable (m : StringMap) : Prop :=
  ∀ name value : Bytes, m[name]? = some value →
    name.length < 2 ^ 31 ∧ value.length < 2 ^ 31

theorem Encodable.insert {m : StringMap} (h : Encodable m) {name value : Bytes}
    (hname : name.length < 2 ^ 31) (hvalue : value.length < 2 ^ 31) :
    Encodable (m.insert name value) := by
  intro name' value' hget
  rw [Std.TreeMap.getElem?_insert] at hget
  split at hget
  · next heq =>
      obtain rfl := Std.LawfulEqCmp.eq_of_compare heq
      obtain rfl := Option.some.inj hget
      exact ⟨hname, hvalue⟩
  · exact h name' value' hget

theorem wide_encodable : Encodable wide.requestHeaders := by
  rw [wide_eq.2, generateFcgiRequestHeaders]
  iterate 9 refine Encodable.insert ?_ (by decide +kernel) (by decide +kernel)
  refine Encodable.insert ?_ (by decide +kernel) ?_
  · iterate 5
      refine Encodable.insert ?_ (by decide +kernel) (by decide +kernel)
    have hnone : clientHeaders RegistryWitness.config.headersApi txn = ∅ := rfl
    rw [hnone]
    intro name value hget
    simp at hget
  · rw [txn, List.length_replicate]
    decide

theorem not_always_readsBack :
    ¬ ∀ client : FcgiClientRequest, Encodable client.requestHeaders →
      0 < client.requestId → client.requestId < 65536 →
      ∃ bytes, client.createBeginRequest.buff = client.buff ++ bytes ∧
        ReadsBack bytes client.requestId client.requestHeaders := by
  intro h
  obtain ⟨hid, hheaders⟩ := wide_eq
  have hpos : 0 < wide.requestId := hid ▸ Nat.one_pos
  have hlt : wide.requestId < 65536 := hid ▸ (by decide : 1 < 65536)
  obtain ⟨bytes, hwritten, hread⟩ := h wide wide_encodable hpos hlt
  obtain rfl := List.append_cancel_left hwritten
  have hsize := wide.paramsSize_of_readsBack hread
  have hquery := wide.requestHeaders.length_get_le (ascii "QUERY_STRING")
  rw [hheaders] at hsize hquery
  rw [generateFcgiRequestHeaders_query, txn, List.length_replicate] at hquery
  exact Nat.lt_irrefl _ (Nat.lt_of_le_of_lt hquery hsize)

/-- The longest name and the longest value that have an encoding. -/
theorem serializedSize_not_always_exact :
    ¬ ∀ pairs : List NameValue,
      NameValue.code.decodeAll
          (pairs.flatMap fun p => serializeNameValue p.name p.value) =
          some pairs ∧
        (pairs.map fun p => serializedSize p.name p.value).sum =
          (pairs.flatMap fun p => serializeNameValue p.name p.value).length := by
  intro h
  obtain ⟨text, htext⟩ : ∃ text : Bytes, text.length = 2 ^ 31 - 1 :=
    ⟨List.replicate _ 65, List.length_replicate⟩
  have hlt : text.length < 2 ^ 31 := by omega
  have hsum := (h [⟨text, text, hlt, hlt⟩]).2
  have hlength : (serializeNameValue text text).length = 2 ^ 32 + 6 := by
    rw [serializeNameValue_length, htext]
    decide
  simp only [List.map_cons, List.map_nil, List.sum_cons, List.sum_nil,
    List.flatMap_cons, List.flatMap_nil, List.append_nil, serializedSize,
    hlength] at hsum
  omega

/-- A `GET` with one header field. -/
def short : FcgiClientRequest :=
  FcgiClientRequest.new RegistryWitness.config 1
    { RegistryWitness.txn (ascii "GET") with
      fields := [(ascii "Accept", [ascii "text/html", ascii "text/plain"])] }

theorem readsBack_short :
    ∃ bytes, short.createBeginRequest.buff = short.buff ++ bytes ∧
      ReadsBack bytes short.requestId short.requestHeaders :=
  (short.createBeginRequest_readsBack_iff (by decide +kernel)).mpr
    (by decide +kernel)

end PreambleWitness

end AtsFastcgi

/-
The FastCGI record layout of `fcgi_protocol.h` and the byte macros of
`ats_fcgi_client.h`: the 8-byte header, the record types the plugin writes or
dispatches on, and records as the prefix code they form on the wire.
-/
import AtsFastcgi.Lib.PrefixCode
import Mathlib.Algebra.Group.Int.Defs
import Mathlib.Algebra.Group.Nat.Defs
import Mathlib.Data.List.Basic

namespace AtsFastcgi

abbrev Bytes := List UInt8

/-- The bytes of an ASCII string literal of the source. -/
def ascii (s : String) : Bytes :=
  s.toList.map fun c => UInt8.ofNat c.toNat

/- `BYTE_0` .. `BYTE_3`.  The argument is an `int` or a `uint32_t` and the
result is stored in an `unsigned char`, which keeps the low eight bits. -/
def byte0 (x : Nat) : UInt8 := UInt8.ofNat (x &&& 0xff)
def byte1 (x : Nat) : UInt8 := UInt8.ofNat ((x >>> 8) &&& 0xff)
def byte2 (x : Nat) : UInt8 := UInt8.ofNat ((x >>> 16) &&& 0xff)
def byte3 (x : Nat) : UInt8 := UInt8.ofNat ((x >>> 24) ||| 0x80)

theorem byte0_toNat (x : Nat) : (byte0 x).toNat = x % 256 := by
  have hmask : x &&& 0xff = x % 2 ^ 8 := Nat.and_two_pow_sub_one_eq_mod x 8
  simp [byte0, hmask]

theorem byte1_toNat (x : Nat) : (byte1 x).toNat = x / 256 % 256 := by
  have hmask : (x >>> 8) &&& 0xff = (x >>> 8) % 2 ^ 8 :=
    Nat.and_two_pow_sub_one_eq_mod _ 8
  rw [byte1, hmask, UInt8.toNat_ofNat', Nat.shiftRight_eq_div_pow]
  omega

/-- The two low bytes of `x`, read back high byte first. -/
theorem byte1_byte0_toNat (x : Nat) :
    (byte1 x).toNat * 256 + (byte0 x).toNat = x % 65536 := by
  rw [byte0_toNat, byte1_toNat]
  omega

/-! ### Record types -/

def FCGI_VERSION_1 : UInt8 := 1
def FCGI_BEGIN_REQUEST : UInt8 := 1
def FCGI_END_REQUEST : UInt8 := 3
def FCGI_PARAMS : UInt8 := 4
def FCGI_STDIN : UInt8 := 5
def FCGI_STDOUT : UInt8 := 6
def FCGI_STDERR : UInt8 := 7

def FCGI_KEEP_CONN : UInt8 := 1
def FCGI_RESPONDER : UInt8 := 1

/-! ### The header -/

/-- `FCGI_Header`.  The default is the `memset` or `calloc` of the source. -/
structure FcgiHeader where
  version : UInt8 := 0
  type : UInt8 := 0
  requestIdB1 : UInt8 := 0
  requestIdB0 : UInt8 := 0
  contentLengthB1 : UInt8 := 0
  contentLengthB0 : UInt8 := 0
  paddingLength : UInt8 := 0
  reserved : UInt8 := 0
deriving DecidableEq, Repr

namespace FcgiHeader

/-- The memory of the struct, which `serialize` copies. -/
def bytes (h : FcgiHeader) : Bytes :=
  [h.version, h.type, h.requestIdB1, h.requestIdB0, h.contentLengthB1,
    h.contentLengthB0, h.paddingLength, h.reserved]

@[simp] theorem bytes_length (h : FcgiHeader) : h.bytes.length = 8 := rfl

/-- `fcgiHeaderGetContentLen`. -/
def contentLen (h : FcgiHeader) : Nat :=
  (h.contentLengthB1.toNat <<< 8) + h.contentLengthB0.toNat

/-- The request id field, high byte first. -/
def requestId (h : FcgiHeader) : Nat :=
  h.requestIdB1.toNat * 256 + h.requestIdB0.toNat

theorem contentLen_eq (h : FcgiHeader) :
    h.contentLen = h.contentLengthB1.toNat * 256 + h.contentLengthB0.toNat := by
  simp [contentLen, Nat.shiftLeft_eq]

theorem contentLen_lt (h : FcgiHeader) : h.contentLen < 65536 := by
  have hhi := h.contentLengthB1.toNat_lt
  have hlo := h.contentLengthB0.toNat_lt
  rw [contentLen_eq]
  omega

end FcgiHeader

/-! ### Records -/

/-- A FastCGI record.  The two bounds are those of the length fields, so every
value of this type has an encoding. -/
structure Record where
  version : UInt8
  type : UInt8
  requestIdB1 : UInt8
  requestIdB0 : UInt8
  reserved : UInt8
  content : Bytes
  padding : Bytes
  content_lt : content.length < 65536
  padding_lt : padding.length < 256
deriving DecidableEq, Repr

namespace Record

theorem nil_padding_lt : ([] : Bytes).length < 256 := by decide

/-- The header that announces the record. -/
def header (r : Record) : FcgiHeader where
  version := r.version
  type := r.type
  requestIdB1 := r.requestIdB1
  requestIdB0 := r.requestIdB0
  contentLengthB1 := byte1 r.content.length
  contentLengthB0 := byte0 r.content.length
  paddingLength := UInt8.ofNat r.padding.length
  reserved := r.reserved

def requestId (r : Record) : Nat := r.header.requestId

def encode (r : Record) : Bytes :=
  r.header.bytes ++ (r.content ++ r.padding)

@[simp] theorem header_type (r : Record) : r.header.type = r.type := rfl

@[simp] theorem header_requestId (r : Record) :
    r.header.requestId = r.requestId := rfl

@[simp] theorem header_contentLen (r : Record) :
    r.header.contentLen = r.content.length := by
  rw [FcgiHeader.contentLen_eq, header, byte1_byte0_toNat]
  exact Nat.mod_eq_of_lt r.content_lt

@[simp] theorem header_paddingLength (r : Record) :
    r.header.paddingLength.toNat = r.padding.length := by
  simpa [header] using Nat.mod_eq_of_lt r.padding_lt

@[simp] theorem encode_length (r : Record) :
    r.encode.length = 8 + r.content.length + r.padding.length := by
  simp [encode, Nat.add_assoc]

/-- Read one record off the front: eight header bytes, then as many content
and padding bytes as they announce. -/
def decode : Bytes → Option (Record × Bytes)
  | version :: type :: id1 :: id0 :: len1 :: len0 :: pad :: reserved :: rest =>
      let contentLen := len1.toNat * 256 + len0.toNat
      if contentLen + pad.toNat ≤ rest.length then
        let body := rest.drop contentLen
        some (
          { version, type, requestIdB1 := id1, requestIdB0 := id0, reserved
            content := rest.take contentLen
            padding := body.take pad.toNat
            content_lt := by
              have hhi := len1.toNat_lt
              have hlo := len0.toNat_lt
              rw [List.length_take]
              omega
            padding_lt := by
              have hpad := pad.toNat_lt
              rw [List.length_take]
              omega },
          body.drop pad.toNat)
      else none
  | _ => none

theorem decode_encode (r : Record) (rest : Bytes) :
    decode (r.encode ++ rest) = some (r, rest) := by
  have hlen : (byte1 r.content.length).toNat * 256 +
      (byte0 r.content.length).toNat = r.content.length := by
    rw [byte1_byte0_toNat, Nat.mod_eq_of_lt r.content_lt]
  have hpad : (UInt8.ofNat r.padding.length).toNat = r.padding.length :=
    r.header_paddingLength
  simp [encode, header, FcgiHeader.bytes, decode, hlen, hpad]

theorem encode_of_decode {stream rest : Bytes} {r : Record}
    (hread : decode stream = some (r, rest)) : stream = r.encode ++ rest := by
  match stream, hread with
  | version :: type :: id1 :: id0 :: len1 :: len0 :: pad :: reserved :: tail,
      hread =>
    simp only [decode] at hread
    split at hread
    · next hfits =>
        simp only [Option.some.injEq, Prod.mk.injEq] at hread
        obtain ⟨rfl, rfl⟩ := hread
        have hhi := len1.toNat_lt
        have hlo := len0.toNat_lt
        have hp := pad.toNat_lt
        have hlen : (tail.take (len1.toNat * 256 + len0.toNat)).length =
            len1.toNat * 256 + len0.toNat := by
          rw [List.length_take]
          omega
        have hpad : ((tail.drop (len1.toNat * 256 + len0.toNat)).take
            pad.toNat).length = pad.toNat := by
          rw [List.length_take, List.length_drop]
          omega
        have h1 : byte1 (len1.toNat * 256 + len0.toNat) = len1 := by
          apply UInt8.toNat_inj.mp
          rw [byte1_toNat]
          omega
        have h0 : byte0 (len1.toNat * 256 + len0.toNat) = len0 := by
          apply UInt8.toNat_inj.mp
          rw [byte0_toNat]
          omega
        simp only [encode, header, FcgiHeader.bytes, hlen, hpad, h1, h0,
          UInt8.ofNat_toNat, List.cons_append, List.nil_append,
          List.append_assoc, List.take_append_drop]
    · contradiction

/-- Records on the wire delimit themselves. -/
def code : PrefixCode Record UInt8 where
  encode := encode
  decode := decode
  decode_encode := decode_encode
  encode_of_decode := encode_of_decode
  encode_ne_nil r := by simp [encode, FcgiHeader.bytes]

@[simp] theorem code_encode (r : Record) : code.encode r = r.encode := rfl

end Record

end AtsFastcgi

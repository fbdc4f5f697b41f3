/-
The address of the FastCGI server.  `createConnection` reads it off two settings
with `sscanf` and puts it together by shifts, so numbers that are no bytes make
another address, or none that is determined.
-/
import AtsFastcgi.ConfigLines
import AtsFastcgi.ConfigRoundTrip

namespace AtsFastcgi

/-! ### `sscanf` -/

/-- What `strtoul` makes of a sign and a number. -/
def strtoul (negative : Bool) (n : Nat) : Nat :=
  if 2 ^ 64 ≤ n then 2 ^ 64 - 1
  else if negative then (2 ^ 64 - n) % 2 ^ 64
  else n

/-- The sign in front of a number. -/
def scanSign : Bytes → Bool × Bytes
  | [] => (false, [])
  | ch :: rest =>
      if ch = 45 then (true, rest)
      else if ch = 43 then (false, rest)
      else (false, ch :: rest)

/-- The conversion `%hu`.  A number that is no `unsigned short` leaves the
variable undetermined, as does a text without digits. -/
def scanHu (text : Bytes) : Option (Nat × Bytes) :=
  let (negative, text) := scanSign (text.dropWhile isSpace)
  if text.takeWhile isDigit = [] then none
  else
    let value := strtoul negative (readDigits text)
    if value < 65536 then some (value, text.dropWhile isDigit) else none

/-- A dot in the format. -/
def scanDot : Bytes → Option Bytes
  | 46 :: rest => some rest
  | _ => none

@[simp] theorem scanDot_cons (rest : Bytes) : scanDot (46 :: rest) = some rest :=
  rfl

/-- `sscanf(arr, "%hu.%hu.%hu.%hu", &a, &b, &c, &d)`, when it sets all four. -/
def scanIp (arr : Bytes) : Option (Nat × Nat × Nat × Nat) := do
  let (a, arr) ← scanHu arr
  let (b, arr) ← scanHu (← scanDot arr)
  let (c, arr) ← scanHu (← scanDot arr)
  let (d, _) ← scanHu (← scanDot arr)
  some (a, b, c, d)

/-! ### `createConnection` -/

/-- `struct sockaddr_in`, with the bytes of `sin_addr` and `sin_port`. -/
structure SockaddrIn where
  addr : Bytes
  port : Bytes
deriving DecidableEq

def htonl (n : Nat) : Bytes :=
  [UInt8.ofNat (n / 2 ^ 24), UInt8.ofNat (n / 2 ^ 16), UInt8.ofNat (n / 2 ^ 8),
    UInt8.ofNat n]

def htons (n : Nat) : Bytes := [UInt8.ofNat (n / 2 ^ 8), UInt8.ofNat n]

/-- The address that `createConnection` connects to.  There is none when a
pointer is null, a variable is not set or `a << 24` overflows. -/
def LoadedConfig.ipAddr (config : LoadedConfig) : Option SockaddrIn := do
  let arr ← config.serverIp
  let port ← config.serverPort
  let (a, b, c, d) ← scanIp arr
  let (p, _) ← scanHu port
  if a < 256 then
    let newIp := a <<< 24 ||| b <<< 16 ||| c <<< 8 ||| d
    some ⟨htonl newIp, htons p⟩
  else none

example : LoadedConfig.ipAddr {} = some ⟨[127, 0, 0, 1], [234, 96]⟩ := by
  decide +kernel

/-! ### Numbers -/

/-- A text that does not go on with a digit. -/
def NoDigit (rest : Bytes) : Prop := ∀ ch ∈ rest.head?, isDigit ch = false

theorem NoDigit.takeWhile {rest : Bytes} (h : NoDigit rest) :
    rest.takeWhile isDigit = [] ∧ rest.dropWhile isDigit = rest := by
  cases rest with
  | nil => exact ⟨rfl, rfl⟩
  | cons ch rest =>
      have hch : isDigit ch = false := h ch rfl
      simp [hch]

/-- The digits of a number end where they end. -/
theorem decimalText_span (n : Nat) {rest : Bytes} (hrest : NoDigit rest) :
    (decimalText n ++ rest).takeWhile isDigit = decimalText n ∧
      (decimalText n ++ rest).dropWhile isDigit = rest := by
  have hall : ∀ ch ∈ decimalText n, isDigit ch = true :=
    fun _ hch => isDigit_of_mem_decimalText hch
  constructor
  · rw [List.takeWhile_append_of_pos hall, hrest.takeWhile.1, List.append_nil]
  · rw [List.dropWhile_append_of_pos hall, hrest.takeWhile.2]

theorem readDigits_append (n : Nat) {rest : Bytes} (hrest : NoDigit rest) :
    readDigits (decimalText n ++ rest) = n := by
  have hread := readDigits_decimalText n
  have hall : (decimalText n).takeWhile isDigit = decimalText n :=
    List.takeWhile_eq_self_iff.mpr fun _ hch => isDigit_of_mem_decimalText hch
  rw [readDigits, hall] at hread
  rw [readDigits, (decimalText_span n hrest).1]
  exact hread

/-- A number is read exactly if it is an `unsigned short`. -/
theorem scanHu_decimalText (n : Nat) {rest : Bytes} (hrest : NoDigit rest) :
    scanHu (decimalText n ++ rest) =
      if n < 65536 then some (n, rest) else none := by
  have hsign : scanSign ((decimalText n ++ rest).dropWhile isSpace) =
      (false, decimalText n ++ rest) := by
    cases htext : decimalText n with
    | nil => exact absurd htext (decimalText_ne_nil n)
    | cons ch digits =>
        have hch : ch ∈ decimalText n := htext ▸ List.mem_cons_self
        obtain ⟨hspace, -, -, hplus, hminus⟩ :=
          isDigit_plain (isDigit_of_mem_decimalText hch)
        rw [List.cons_append, List.dropWhile_cons_of_neg (by simp [hspace]),
          scanSign, if_neg hminus, if_neg hplus]
  obtain ⟨htake, hdrop⟩ := decimalText_span n hrest
  simp only [scanHu, hsign, htake, hdrop, readDigits_append n hrest, strtoul,
    if_neg (decimalText_ne_nil n), Bool.false_eq_true, if_false]
  by_cases hwide : 2 ^ 64 ≤ n
  · rw [if_pos hwide, if_neg (by omega), if_neg (by omega)]
  · rw [if_neg hwide]

/-! ### Addresses -/

/-- Four numbers with dots between them. -/
def dottedText (a b c d : Nat) : Bytes :=
  decimalText a ++ 46 :: (decimalText b ++ 46 :: (decimalText c ++
    46 :: decimalText d))

theorem noDigit_dot (rest : Bytes) : NoDigit (46 :: rest) := by
  intro ch hch
  rw [← Option.some.inj hch]
  decide

theorem noDigit_nil : NoDigit [] := by
  intro ch hch
  contradiction

/-- Four numbers are read exactly if all are `unsigned short`s. -/
theorem scanIp_dottedText (a b c d : Nat) :
    scanIp (dottedText a b c d) =
      if a < 65536 ∧ b < 65536 ∧ c < 65536 ∧ d < 65536 then some (a, b, c, d)
      else none := by
  have hscan : ∀ n rest, scanHu (decimalText n ++ 46 :: rest) =
      if n < 65536 then some (n, 46 :: rest) else none :=
    fun n rest => scanHu_decimalText n (noDigit_dot rest)
  have hlast := scanHu_decimalText d noDigit_nil
  rw [List.append_nil] at hlast
  by_cases ha : a < 65536
  · by_cases hb : b < 65536
    · by_cases hc : c < 65536
      · by_cases hd : d < 65536
        · simp [scanIp, dottedText, hscan, hlast, ha, hb, hc, hd]
        · simp [scanIp, dottedText, hscan, hlast, ha, hb, hc, hd]
      · simp [scanIp, dottedText, hscan, ha, hb, hc]
    · simp [scanIp, dottedText, hscan, ha, hb]
  · simp [scanIp, dottedText, hscan, ha]

/-- The bytes that four shifted numbers are put together to. -/
theorem htonl_shifts {a b c d : Nat} (ha : a < 256) (hb : b < 65536)
    (hc : c < 65536) (hd : d < 65536) :
    (htonl (a <<< 24 ||| b <<< 16 ||| c <<< 8 ||| d)).map UInt8.toNat =
      [a ||| b / 256, b % 256 ||| c / 256, c % 256 ||| d / 256, d % 256] := by
  have hbyte : ∀ n, (UInt8.ofNat n).toNat = n % 2 ^ 8 := fun _ => rfl
  simp only [htonl, List.map_cons, List.map_nil, hbyte, Nat.shiftLeft_eq,
    Nat.or_div_two_pow, Nat.or_mod_two_pow]
  -- the first and the second number, and what the next one adds to them
  have h₁ : a * 2 ^ 24 / 2 ^ 24 % 2 ^ 8 = a ∧
      b * 2 ^ 16 / 2 ^ 24 % 2 ^ 8 = b / 256 ∧
      c * 2 ^ 8 / 2 ^ 24 % 2 ^ 8 = 0 ∧ d / 2 ^ 24 % 2 ^ 8 = 0 := by omega
  have h₂ : a * 2 ^ 24 / 2 ^ 16 % 2 ^ 8 = 0 ∧
      b * 2 ^ 16 / 2 ^ 16 % 2 ^ 8 = b % 256 ∧
      c * 2 ^ 8 / 2 ^ 16 % 2 ^ 8 = c / 256 ∧ d / 2 ^ 16 % 2 ^ 8 = 0 := by omega
  have h₃ : a * 2 ^ 24 / 2 ^ 8 % 2 ^ 8 = 0 ∧
      b * 2 ^ 16 / 2 ^ 8 % 2 ^ 8 = 0 ∧
      c * 2 ^ 8 / 2 ^ 8 % 2 ^ 8 = c % 256 ∧ d / 2 ^ 8 % 2 ^ 8 = d / 256 := by
    omega
  have h₄ : a * 2 ^ 24 % 2 ^ 8 = 0 ∧ b * 2 ^ 16 % 2 ^ 8 = 0 ∧
      c * 2 ^ 8 % 2 ^ 8 = 0 ∧ d % 2 ^ 8 = d % 256 := by omega
  simp only [h₁, h₂, h₃, h₄, Nat.or_zero, Nat.zero_or]

/-- The number of a port in memory. -/
def SockaddrIn.portNumber (address : SockaddrIn) : Nat :=
  address.port.foldl (fun n byte => 256 * n + byte.toNat) 0

theorem htons_portNumber {p : Nat} (hp : p < 65536) (addr : Bytes) :
    SockaddrIn.portNumber ⟨addr, htons p⟩ = p := by
  have hbyte : ∀ n, (UInt8.ofNat n).toNat = n % 2 ^ 8 := fun _ => rfl
  simp only [SockaddrIn.portNumber, htons, List.foldl_cons, List.foldl_nil, hbyte]
  omega

/-- What a server given by four numbers and a port is connected to. -/
theorem ipAddr_dottedText {config : LoadedConfig} {a b c d p : Nat}
    (hip : config.serverIp = some (dottedText a b c d))
    (hport : config.serverPort = some (decimalText p)) :
    config.ipAddr =
      if a < 256 ∧ b < 65536 ∧ c < 65536 ∧ d < 65536 ∧ p < 65536 then
        some ⟨htonl (a <<< 24 ||| b <<< 16 ||| c <<< 8 ||| d), htons p⟩
      else none := by
  have hscan := scanHu_decimalText p noDigit_nil
  rw [List.append_nil] at hscan
  simp only [LoadedConfig.ipAddr, hip, hport, scanIp_dottedText, hscan,
    Option.bind_eq_bind, Option.bind_some]
  by_cases hshorts : a < 65536 ∧ b < 65536 ∧ c < 65536 ∧ d < 65536
  · by_cases hp : p < 65536
    · by_cases ha : a < 256
      · simp [hshorts, hp, ha]
      · simp [hshorts, hp, ha]
    · simp [hshorts, hp]
  · have hwide : ¬ (a < 256 ∧ b < 65536 ∧ c < 65536 ∧ d < 65536 ∧ p < 65536) := by
      omega
    simp [hshorts, if_neg hwide]

/-- It is the server that the numbers name exactly if the four are bytes and the
port fits its field. -/
theorem ipAddr_dottedText_iff {config : LoadedConfig} {a b c d p : Nat}
    (hip : config.serverIp = some (dottedText a b c d))
    (hport : config.serverPort = some (decimalText p)) :
    (∃ address, config.ipAddr = some address ∧
      address.addr.map UInt8.toNat = [a, b, c, d] ∧ address.portNumber = p) ↔
      a < 256 ∧ b < 256 ∧ c < 256 ∧ d < 256 ∧ p < 65536 := by
  rw [ipAddr_dottedText hip hport]
  constructor
  · rintro ⟨address, haddress, hbytes, -⟩
    obtain ⟨⟨ha, hb, hc, hd, hp⟩, hsome⟩ :=
      Option.ite_none_right_eq_some.mp haddress
    rw [← Option.some.inj hsome, htonl_shifts ha hb hc hd] at hbytes
    simp only [List.cons.injEq] at hbytes
    obtain ⟨-, hsecond, hthird, hfourth, -⟩ := hbytes
    have hbyte : ∀ {n m : Nat}, m < 65536 → n % 256 ||| m / 256 < 256 := by
      intro n m hm
      exact Nat.or_lt_two_pow (n := 8) (Nat.mod_lt n (by decide)) (by omega)
    refine ⟨ha, hsecond ▸ hbyte hc, hthird ▸ hbyte hd, by omega, hp⟩
  · rintro ⟨ha, hb, hc, hd, hp⟩
    refine ⟨_, if_pos (by omega), ?_, htons_portNumber hp _⟩
    rw [htonl_shifts ha (by omega) (by omega) (by omega)]
    have hsmall : ∀ {n}, n < 256 → n / 256 = 0 ∧ n % 256 = n := by omega
    simp only [hsmall hb, hsmall hc, hsmall hd, Nat.or_zero]

/-! ### From the file to the address -/

/-- A number is not the text `NULL`. -/
theorem stringSetting_of_decimalText (n : Nat) (rest : Bytes) :
    stringSetting (decimalText n ++ rest) = some (decimalText n ++ rest) := by
  rw [stringSetting, if_neg]
  intro heq
  cases htext : decimalText n with
  | nil => exact decimalText_ne_nil n htext
  | cons ch digits =>
      have hch : isDigit ch = true :=
        isDigit_of_mem_decimalText (htext ▸ List.mem_cons_self)
      rw [htext, List.cons_append] at heq
      obtain ⟨rfl, -⟩ := List.cons.inj heq
      contradiction

open LoadedConfig in
/-- A file whose last server address is four numbers and whose last port is a
number makes the plugin connect to this server exactly if the four numbers are
bytes and the port fits its field. -/
theorem connects_as_configured_iff (files : Files) (fn text : Bytes)
    (config : LoadedConfig) (a b c d p : Nat) (hname : fn.length ≠ 1)
    (hfile : files fn = some text)
    (hload : initConfig files (some fn) = some config)
    (hip : Assignments.last (settingsOf text) .serverIp =
      some (dottedText a b c d))
    (hport : Assignments.last (settingsOf text) .serverPort =
      some (decimalText p)) :
    (∃ address, config.ipAddr = some address ∧
      address.addr.map UInt8.toNat = [a, b, c, d] ∧ address.portNumber = p) ↔
      a < 256 ∧ b < 256 ∧ c < 256 ∧ d < 256 ∧ p < 65536 := by
  rw [initConfig_file hname hfile] at hload
  obtain ⟨-, rfl⟩ := load_eq_some.mp hload
  apply ipAddr_dottedText_iff
  · show lastOr _ _ _ _ = _
    rw [lastOr, hip]
    exact stringSetting_of_decimalText a _
  · have hplain := stringSetting_of_decimalText p []
    rw [List.append_nil] at hplain
    show lastOr _ _ _ _ = _
    rw [lastOr, hport]
    exact hplain

namespace AddressWitness

open LoadedConfig

/-- A file with a number that is no byte. -/
def text : Bytes :=
  ascii "CONFIG proxy.config.http.fcgi.host.server_ip STRING 10.256.0.1\n" ++
    ascii "CONFIG proxy.config.http.fcgi.host.server_port STRING 9000\n"

def files : Files := fun _ => some text

def config : LoadedConfig :=
  (initConfig files (some (ascii "fastcgi.config"))).getD {}

theorem connects_as_configured_text :
    (∃ address, config.ipAddr = some address ∧
      address.addr.map UInt8.toNat = [10, 256, 0, 1] ∧
      address.portNumber = 9000) ↔
      10 < 256 ∧ 256 < 256 ∧ 0 < 256 ∧ 1 < 256 ∧ 9000 < 65536 := by
  obtain ⟨hsome, hip, hport⟩ :
      (initConfig files (some (ascii "fastcgi.config"))).isSome = true ∧
      Assignments.last (settingsOf text) .serverIp =
        some (dottedText 10 256 0 1) ∧
      Assignments.last (settingsOf text) .serverPort =
        some (decimalText 9000) := by decide +kernel
  exact connects_as_configured_iff files (ascii "fastcgi.config") text config
    10 256 0 1 9000 (by decide) rfl
    (Option.getD_of_ne_none (Option.isSome_iff_ne_none.mp hsome) {}).symm hip
    hport

/-- The server is another one. -/
example : LoadedConfig.ipAddr { serverIp := some (dottedText 10 256 0 1) } =
    some ⟨[11, 0, 0, 1], [234, 96]⟩ := by decide +kernel

end AddressWitness

end AtsFastcgi

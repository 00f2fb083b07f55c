import K2Platform.Lake.Cast
import K2Platform.Lake.Ingest
import K2Platform.Lib.BigEndian
import K2Platform.Lib.ThreeValued

/-!
# The Confluent framing, read twice

Model of `docker/lake/wire.py`: the parser that the driver runs and the SQL expressions that the
executors run.  A frame is a magic byte, a big-endian schema id of four bytes, and the Avro body.

* `castInt_conv_hex` — the detour through hexadecimal text, base conversion and a nullable cast
  reads an unsigned integer that fits a signed one, and NULL otherwise.
* `readers_agree` — the guarded expression has a value exactly on the frames that the parser
  accepts, and it is the id that the parser gives.
* `schemaIdGuardedSql_eq` — the column of `raw.messages` holds that value.
-/

set_option autoImplicit false

namespace K2.Lake

open BigEndian

def MAGIC : Int := 0

def HEADER_BYTES : Nat := 5

/-! ## The driver's reader -/

inductive BadFrame
  | tooShort (length : Nat)
  | wrongMagic (magic : Int)
  | unregistered (schemaId : Int)
  deriving DecidableEq, Repr

/-- `format(byte, "#04x")`. -/
def formatByte (byte : Nat) : String :=
  "0x" ++ String.ofList [(byte / 16).digitChar, (byte % 16).digitChar]

def BadFrame.message : BadFrame → String
  | .tooShort length =>
    s!"frame is {length} bytes, shorter than the {HEADER_BYTES}-byte Confluent header"
  | .wrongMagic magic =>
    s!"magic byte is {formatByte (magic % 256).toNat}, expected {formatByte MAGIC.toNat}"
  | .unregistered schemaId => s!"schema id {schemaId} is not a registered id"

/-- `struct.unpack(">bi", header)`. -/
def unpackHeader (header : Bytes) : Int × Int :=
  (signed (header.take 1), signed ((header.drop 1).take 4))

def parseConfluent (frame : Bytes) : Except BadFrame (Int × Bytes) :=
  if frame.length < HEADER_BYTES then .error (.tooShort frame.length)
  else
    let header := unpackHeader (frame.take HEADER_BYTES)
    if header.1 ≠ MAGIC then .error (.wrongMagic header.1)
    else if header.2 ≤ 0 then .error (.unregistered header.2)
    else .ok (header.2, frame.drop HEADER_BYTES)

example : (parseConfluent [0x7b, 0x22, 0x61, 0x22, 0x3a]).map Prod.fst =
    .error (.wrongMagic 0x7b) := by decide

example : (BadFrame.wrongMagic (-1)).message = "magic byte is 0xff, expected 0x00" := by decide

/-! ## The executors' expressions -/

/-- `substring(bytes, start, length)`: positions count from one, and what is not there is left
    out. -/
def substring (bytes : Bytes) (start length : Nat) : Bytes := (bytes.drop (start - 1)).take length

def substringFrom (bytes : Bytes) (start : Nat) : Bytes := bytes.drop (start - 1)

/-- `conv(text, fromBase, toBase)` of an unsigned text: NULL for no text, and the largest 64-bit
    value for one that overflows. -/
def conv (text : List Char) (fromBase toBase : Nat) : Option (List Char) :=
  if text = [] then none
  else some (Nat.toDigits toBase (min (2 ^ 64 - 1) (readDigits fromBase 0 text)))

/-- `CAST(text AS INT)`, ANSI off: a fraction is cut off, and what is not a number or does not fit
    is NULL. -/
def castInt (text : List Char) : Option Int :=
  let number := readSign (trim text)
  let magnitude : Int := Nat.ofDigitChars 10 (number.2.takeWhile Char.isDigit) 0
  let value := if number.1 then -magnitude else magnitude
  if number.2 ≠ [] ∧ (readFraction (number.2.dropWhile Char.isDigit)).2 = [] ∧
      -2147483648 ≤ value ∧ value < 2147483648 then some value
  else none

def schemaIdSql (col : Option Bytes) : Option Int :=
  ((col.map fun value => hex (substring value 2 4)).bind fun text => conv text 16 10).bind castInt

def bodySql (col : Option Bytes) : Option Bytes :=
  col.map fun value => substringFrom value (HEADER_BYTES + 1)

def magicOkSql (col : Option Bytes) : Option Bool :=
  ThreeValued.compare (fun a b => a == b) (col.map fun value => hex (substring value 1 1))
    (some ['0', '0'])

def schemaIdGuardedSql (col : Option Bytes) : Option Int :=
  ThreeValued.caseWhen
    (ThreeValued.and
      (ThreeValued.and
        (ThreeValued.compare (fun a b => decide (a ≥ b)) (col.map List.length) (some HEADER_BYTES))
        (magicOkSql col))
      (ThreeValued.compare (fun a b => decide (a > b)) (schemaIdSql col) (some 0)))
    (schemaIdSql col)

/-! ## Hexadecimal text, base conversion and the cast -/

theorem castInt_toDigits (n : Nat) :
    castInt (Nat.toDigits 10 n) = if n < 2147483648 then some (n : Int) else none := by
  have hdigits : ∀ c ∈ Nat.toDigits 10 n, c.isDigit = true := fun c hc =>
    Nat.isDigit_of_mem_toDigits (by decide) (by decide) hc
  have htrim : trim (Nat.toDigits 10 n) = Nat.toDigits 10 n :=
    trim_eq_self fun c hc => lt_of_lt_of_le (by decide) (toNat_of_isDigit (hdigits c hc))
  have hne : Nat.toDigits 10 n ≠ [] := Nat.toDigits_ne_nil
  have hsign : readSign (Nat.toDigits 10 n) = (false, Nat.toDigits 10 n) := by
    obtain ⟨c, rest, heq⟩ := List.exists_cons_of_ne_nil hne
    have hc : c.isDigit = true := hdigits c (heq ▸ List.mem_cons_self)
    rw [heq]
    unfold readSign
    split
    · rename_i h
      cases h
      cases hc
    · rename_i h
      cases h
      cases hc
    · rfl
  have hsplit := takeWhile_digits [] hdigits fun c hc => absurd hc (Option.not_mem_none c)
  rw [List.append_nil] at hsplit
  simp only [castInt, htrim, hsign, hsplit.1, hsplit.2, Nat.ofDigitChars_ten_toDigits]
  by_cases hfits : n < 2147483648
  · rw [if_pos hfits]
    refine if_pos ⟨hne, rfl, ?_, ?_⟩
    · show -2147483648 ≤ (n : Int)
      omega
    · show (n : Int) < 2147483648
      omega
  · rw [if_neg hfits]
    refine if_neg fun h => hfits ?_
    have hlt : (n : Int) < 2147483648 := h.2.2.2
    omega

/-- Through hexadecimal text, base conversion and the cast. -/
theorem castInt_conv_hex {bytes : Bytes} (hne : bytes ≠ []) (hlen : bytes.length ≤ 8) :
    (conv (hex bytes) 16 10).bind castInt =
      if unsigned bytes < 2147483648 then some (unsigned bytes : Int) else none := by
  have hfits : unsigned bytes ≤ 2 ^ 64 - 1 := by
    have hlt := unsigned_lt bytes
    have hpow : 256 ^ bytes.length ≤ 256 ^ 8 := Nat.pow_le_pow_right (by decide) hlen
    have height : 256 ^ 8 = 2 ^ 64 := rfl
    omega
  rw [conv, if_neg (mt (hex_eq_nil_iff bytes).1 hne), readDigits_hex, min_eq_right hfits,
    Option.bind_some, castInt_toDigits]

/-! ## The agreement -/

section Agreement

variable {frame : Bytes}

theorem slice_length (h : HEADER_BYTES ≤ frame.length) : (substring frame 2 4).length = 4 := by
  have hlen : 5 ≤ frame.length := h
  rw [substring, List.length_take, List.length_drop]
  omega

theorem unpackHeader_take (frame : Bytes) :
    unpackHeader (frame.take HEADER_BYTES) =
      (signed (substring frame 1 1), signed (substring frame 2 4)) := by
  rw [unpackHeader, List.take_take, List.drop_take, List.take_take]
  rfl

theorem magicOkSql_eq_true_iff (h : HEADER_BYTES ≤ frame.length) :
    magicOkSql (some frame) = some true ↔ signed (substring frame 1 1) = MAGIC := by
  obtain ⟨magic, rest, rfl⟩ : ∃ magic rest, frame = magic :: rest := by
    cases frame with
    | nil => exact absurd h (by decide)
    | cons magic rest => exact ⟨magic, rest, rfl⟩
  have hslice : substring (magic :: rest) 1 1 = [magic] := rfl
  have hzero : hex [magic] = ['0', '0'] ↔ magic = 0 := by
    constructor
    · exact fun heq => hexByte_injective (b := 0) heq
    · rintro rfl
      rfl
  have hsigned : signed [magic] = 0 ↔ magic = 0 := signed_singleton_eq_zero_iff magic
  rw [magicOkSql, ThreeValued.compare_eq_true_iff]
  simp only [Option.map_some, Option.some.injEq, hslice, beq_iff_eq]
  constructor
  · rintro ⟨_, _, rfl, rfl, heq⟩
    exact hsigned.2 (hzero.1 heq)
  · intro heq
    exact ⟨_, _, rfl, rfl, hzero.2 (hsigned.1 heq)⟩

/-- The expression is positive where the four bytes are a positive signed integer, which is then
    its value. -/
theorem schemaIdSql_pos_iff (h : HEADER_BYTES ≤ frame.length) {id : Int} (hid : 0 < id) :
    schemaIdSql (some frame) = some id ↔ signed (substring frame 2 4) = id := by
  have hlen := slice_length h
  have hsql : schemaIdSql (some frame) = if unsigned (substring frame 2 4) < 2147483648 then
      some (unsigned (substring frame 2 4) : Int) else none :=
    castInt_conv_hex (List.ne_nil_of_length_pos (by omega)) (by omega)
  rw [hsql, signed_eq_iff_of_pos hid, hlen]
  by_cases hfits : unsigned (substring frame 2 4) < 2147483648
  · rw [if_pos hfits, Option.some.injEq, and_iff_left (by omega)]
  · rw [if_neg hfits]
    exact iff_of_false (fun hnull => by cases hnull) fun hclear => hfits (by omega)

theorem schemaIdGuardedSql_eq_some_iff (id : Int) :
    schemaIdGuardedSql (some frame) = some id ↔
      HEADER_BYTES ≤ frame.length ∧ signed (substring frame 1 1) = MAGIC ∧
        signed (substring frame 2 4) = id ∧ 0 < id := by
  rw [schemaIdGuardedSql, ThreeValued.caseWhen_eq_some_iff, ThreeValued.and_eq_true_iff,
    ThreeValued.and_eq_true_iff, ThreeValued.compare_eq_true_iff,
    ThreeValued.compare_eq_true_iff]
  simp only [Option.map_some, Option.some.injEq, decide_eq_true_eq, exists_and_left,
    exists_eq_left', ge_iff_le, gt_iff_lt]
  constructor
  · rintro ⟨⟨⟨hlen, hmagic⟩, sid, hsid, hpos⟩, hid⟩
    rw [hsid, Option.some.injEq] at hid
    subst hid
    exact ⟨hlen, (magicOkSql_eq_true_iff hlen).1 hmagic, (schemaIdSql_pos_iff hlen hpos).1 hsid,
      hpos⟩
  · rintro ⟨hlen, hmagic, hsigned, hpos⟩
    have hid := (schemaIdSql_pos_iff hlen hpos).2 hsigned
    exact ⟨⟨⟨hlen, (magicOkSql_eq_true_iff hlen).2 hmagic⟩, id, hid, hpos⟩, hid⟩

theorem parseConfluent_eq_ok_iff (id : Int) (body : Bytes) :
    parseConfluent frame = .ok (id, body) ↔
      (HEADER_BYTES ≤ frame.length ∧ signed (substring frame 1 1) = MAGIC ∧
        signed (substring frame 2 4) = id ∧ 0 < id) ∧ body = frame.drop HEADER_BYTES := by
  unfold parseConfluent
  rw [unpackHeader_take]
  constructor
  · intro h
    split at h
    · cases h
    · rename_i hlen
      simp only [ne_eq] at h
      split at h
      · cases h
      · rename_i hmagic
        split at h
        · cases h
        · rename_i hid
          cases h
          exact ⟨⟨Nat.not_lt.1 hlen, not_not.1 hmagic, rfl, Int.not_le.1 hid⟩, rfl⟩
  · rintro ⟨⟨hlen, hmagic, rfl, hpos⟩, rfl⟩
    rw [if_neg (Nat.not_lt.2 hlen)]
    simp only [hmagic, ne_eq, not_true_eq_false, if_false, if_neg (Int.not_le.2 hpos)]

/-- The expression has a value exactly where the parser returns, and then the same id and the same
    body; it is NULL exactly where the parser raises. -/
theorem readers_agree (frame : Bytes) :
    (∀ id, schemaIdGuardedSql (some frame) = some id ↔
      ∃ body, parseConfluent frame = .ok (id, body)) ∧
    (∀ id body, parseConfluent frame = .ok (id, body) → bodySql (some frame) = some body) ∧
    (schemaIdGuardedSql (some frame) = none ↔ ∃ e, parseConfluent frame = .error e) := by
  have hsome : ∀ id, schemaIdGuardedSql (some frame) = some id ↔
      ∃ body, parseConfluent frame = .ok (id, body) := by
    intro id
    rw [schemaIdGuardedSql_eq_some_iff]
    constructor
    · exact fun h => ⟨_, (parseConfluent_eq_ok_iff id _).2 ⟨h, rfl⟩⟩
    · rintro ⟨body, h⟩
      exact ((parseConfluent_eq_ok_iff id body).1 h).1
  refine ⟨hsome, fun id body h => ?_, ?_⟩
  · rw [((parseConfluent_eq_ok_iff id body).1 h).2]
    rfl
  · constructor
    · intro hnull
      cases hparse : parseConfluent frame with
      | error e => exact ⟨e, rfl⟩
      | ok r =>
        rw [(hsome r.1).2 ⟨r.2, hparse⟩] at hnull
        cases hnull
    · rintro ⟨e, herror⟩
      rw [Option.eq_none_iff_forall_ne_some]
      intro id hid
      obtain ⟨body, hok⟩ := (hsome id).1 hid
      rw [herror] at hok
      cases hok

end Agreement

/-- What stage 1 writes into `raw.messages.schema_id`. -/
theorem schemaIdGuardedSql_eq (col : Option Bytes) :
    schemaIdGuardedSql col = (schemaIdGuarded col).map Int.ofNat := by
  cases col with
  | none => rfl
  | some frame =>
    refine Option.ext fun id => ?_
    rw [schemaIdGuardedSql_eq_some_iff, Option.map_eq_some_iff]
    match frame with
    | [] | [_] | [_, _] | [_, _, _] | [_, _, _, _] =>
      constructor
      · rintro ⟨hlen, _⟩
        exact absurd hlen (by simp [HEADER_BYTES])
      · rintro ⟨_, hnull, _⟩
        cases hnull
    | magic :: a :: b :: c :: d :: rest =>
      have hmagic : signed (substring (magic :: a :: b :: c :: d :: rest) 1 1) = MAGIC ↔
          magic = 0 := signed_singleton_eq_zero_iff magic
      have hslice : substring (magic :: a :: b :: c :: d :: rest) 2 4 = [a, b, c, d] := rfl
      have hsid : unsigned [a, b, c, d] =
          ((a.toNat * 256 + b.toNat) * 256 + c.toNat) * 256 + d.toNat := by
        simp only [unsigned, List.foldl_cons, List.foldl_nil]
        omega
      have hpow : 256 ^ [a, b, c, d].length = 4294967296 := by simp
      rw [hmagic, hslice]
      simp only [schemaIdGuarded, ← hsid]
      constructor
      · rintro ⟨_, hzero, hid, hpos⟩
        obtain ⟨rfl, hclear⟩ := (signed_eq_iff_of_pos hpos).1 hid
        exact ⟨_, if_pos ⟨hzero, by omega, by omega⟩, rfl⟩
      · rintro ⟨sid, hguard, rfl⟩
        split at hguard
        · rename_i h
          cases hguard
          have hpos : (0 : Int) < unsigned [a, b, c, d] := by
            have hnat := h.2.1
            omega
          have hclear : 2 * unsigned [a, b, c, d] < 256 ^ [a, b, c, d].length := by
            have hfits := h.2.2
            omega
          refine ⟨?_, h.1, (signed_eq_iff_of_pos hpos).2 ⟨rfl, hclear⟩, hpos⟩
          show 5 ≤ rest.length + 5
          omega
        · cases hguard

end K2.Lake

import LayerSdk.Sha256
import Mathlib.Tactic.Common
import Mathlib.Algebra.GroupWithZero.Nat

/-!
# Texts and serialisers

What the node and the contract take from outside the repository to turn
values into bytes: UTF-8 texts, decimal numbers inside storage keys, hex, and
JSON. Hex is modelled; serde's JSON is a parameter with the one law that
matters, that a value which was serialised parses back (`JsonCodec`).
-/

namespace LayerSdk

/-- `as_bytes` / `into_bytes`. -/
def str (s : String) : Bytes := s.toUTF8.data.toList

theorem str_inj {s t : String} (h : str s = str t) : s = t := by
  have hdata : s.toUTF8.data = t.toUTF8.data := Array.toList_inj.mp h
  have hbytes : s.toByteArray = t.toByteArray := ByteArray.ext hdata
  exact String.toByteArray_inj.mp hbytes

theorem str_append (s t : String) : str (s ++ t) = str s ++ str t := by
  simp [str]

theorem string_append_cancel {p a b : String} (h : p ++ a = p ++ b) : a = b := by
  have hlist := congrArg String.toList h
  rw [String.toList_append, String.toList_append] at hlist
  exact String.toList_inj.mp (List.append_cancel_left hlist)

theorem str_ofList (l : List Char) : str (String.ofList l) = l.flatMap String.utf8EncodeChar := by
  simp [str, List.utf8Encode]

theorem utf8EncodeChar_of_lt {c : Char} (h : c.toNat < 128) :
    String.utf8EncodeChar c = [UInt8.ofNat c.toNat] := by
  have hval : c.val.toNat ≤ 127 := by
    change c.toNat ≤ 127
    omega
  rw [String.utf8EncodeChar, if_pos hval]
  rfl

/-! ## Failing computations -/

section Except

variable {ε α β : Type} {x : Except ε α} {f : α → Except ε β}

theorem bind_eq_ok {b : β} : (x >>= f) = .ok b ↔ ∃ a, x = .ok a ∧ f a = .ok b := by
  cases x with
  | error e | ok a => simp [bind, Except.bind]

theorem bind_ne_error {e : ε} (hx : x ≠ .error e) (hf : ∀ a, x = .ok a → f a ≠ .error e) :
    (x >>= f) ≠ .error e := by
  cases x with
  | error e' => exact fun h => hx (congrArg Except.error (Except.error.inj h))
  | ok a => exact hf a rfl

/-- A check in front of the rest. -/
theorem guard_eq_ok {c : Prop} [Decidable c] {e : ε} {a : α} :
    (if c then .error e else x) = .ok a ↔ ¬ c ∧ x = .ok a := by
  split <;> simp_all

end Except

/-! ## Decimal numbers in keys -/

theorem toList_repr (n : Nat) : (Nat.repr n).toList = Nat.toDigits 10 n := by
  rw [Nat.repr_eq_ofList_toDigits, String.toList_ofList]

theorem notMem_repr {c : Char} (hc : c.isDigit = false) (n : Nat) : c ∉ (Nat.repr n).toList := by
  rw [toList_repr]
  intro hmem
  have hdigit : c.isDigit = true := Nat.isDigit_of_mem_toDigits (by omega) (by omega) hmem
  rw [hc] at hdigit
  cases hdigit

theorem repr_inj {a b : Nat} (h : Nat.repr a = Nat.repr b) : a = b := by
  have hdigits : Nat.toDigits 10 a = Nat.toDigits 10 b := by rw [← toList_repr, ← toList_repr, h]
  have hval := congrArg (Nat.ofDigitChars 10 · 0) hdigits
  simpa [Nat.ofDigitChars_toDigits] using hval

/-- Cutting at the first separator is unambiguous. -/
theorem append_sep_inj {α : Type*} {x : α} : ∀ {a a' b b' : List α}, x ∉ a → x ∉ a' →
    a ++ x :: b = a' ++ x :: b' → a = a' ∧ b = b'
  | [], [], b, b', _, _, h => ⟨rfl, (List.cons.inj h).2⟩
  | [], y :: a', b, b', _, h', h => absurd (List.cons.inj h).1 (List.ne_of_not_mem_cons h')
  | y :: a, [], b, b', ha, _, h => absurd (List.cons.inj h).1.symm (List.ne_of_not_mem_cons ha)
  | y :: a, y' :: a', b, b', ha, ha', h => by
    obtain ⟨hy, hrest⟩ := List.cons.inj h
    obtain ⟨hl, hr⟩ := append_sep_inj (List.not_mem_of_not_mem_cons ha)
      (List.not_mem_of_not_mem_cons ha') hrest
    exact ⟨by rw [hy, hl], hr⟩

/-- `{a}-{b}` determines both numbers. -/
theorem dashed_inj {a b a' b' : Nat}
    (h : Nat.repr a ++ "-" ++ Nat.repr b = Nat.repr a' ++ "-" ++ Nat.repr b') :
    a = a' ∧ b = b' := by
  have hlist := congrArg String.toList h
  simp only [String.toList_append, List.append_assoc] at hlist
  obtain ⟨ha, hb⟩ := append_sep_inj (notMem_repr (c := '-') rfl a) (notMem_repr rfl a') hlist
  exact ⟨repr_inj (String.toList_inj.mp ha), repr_inj (String.toList_inj.mp hb)⟩

/-! ## Hex -/

def hexDigit (n : Nat) : Char := if n < 10 then Char.ofNat (48 + n) else Char.ofNat (87 + n)

def hexPair (b : UInt8) : List Char := [hexDigit (b.toNat / 16), hexDigit (b.toNat % 16)]

/-- `hex::encode`. -/
def hexEncode (b : Bytes) : String := String.ofList (b.flatMap hexPair)

def hexVal (c : UInt8) : Option Nat :=
  let n := c.toNat
  if 48 ≤ n ∧ n ≤ 57 then some (n - 48)
  else if 97 ≤ n ∧ n ≤ 102 then some (n - 87)
  else if 65 ≤ n ∧ n ≤ 70 then some (n - 55)
  else none

def hexDecodeBytes : Bytes → Option Bytes
  | [] => some []
  | [_] => none
  | hi :: lo :: rest =>
    match hexVal hi, hexVal lo, hexDecodeBytes rest with
    | some h, some l, some bs => some (UInt8.ofNat (16 * h + l) :: bs)
    | _, _, _ => none

/-- `hex::decode`; both cases are accepted. -/
def hexDecode (s : String) : Option Bytes := hexDecodeBytes (str s)

theorem hexDigit_inj : ∀ m < 16, ∀ n < 16, hexDigit m = hexDigit n → m = n := by decide

theorem flatMap_hexPair_inj : ∀ {a b : Bytes}, a.flatMap hexPair = b.flatMap hexPair → a = b
  | [], [], _ => rfl
  | [], y :: ys, h => by simp [hexPair] at h
  | x :: xs, [], h => by simp [hexPair] at h
  | x :: xs, y :: ys, h => by
    have hx := x.toNat_lt
    have hy := y.toNat_lt
    simp only [List.flatMap_cons, hexPair, List.cons_append, List.nil_append,
      List.cons.injEq] at h
    obtain ⟨hhi, hlo, hrest⟩ := h
    have hhi' := hexDigit_inj _ (by omega) _ (by omega) hhi
    have hlo' := hexDigit_inj _ (by omega) _ (by omega) hlo
    have hxy : x = y := UInt8.toNat_inj.mp (by omega)
    rw [hxy, flatMap_hexPair_inj hrest]

theorem hexEncode_inj {a b : Bytes} (h : hexEncode a = hexEncode b) : a = b :=
  flatMap_hexPair_inj (String.ofList_injective h)

theorem hexDigit_ascii : ∀ n < 16, (hexDigit n).toNat < 128 ∧
    hexVal (UInt8.ofNat (hexDigit n).toNat) = some n := by decide

theorem hexDecodeBytes_hexPair (b : UInt8) {rest bs : Bytes} (h : hexDecodeBytes rest = some bs) :
    hexDecodeBytes ((hexPair b).flatMap String.utf8EncodeChar ++ rest) = some (b :: bs) := by
  obtain ⟨hhi, hvhi⟩ := hexDigit_ascii (b.toNat / 16) (by have := b.toNat_lt; omega)
  obtain ⟨hlo, hvlo⟩ := hexDigit_ascii (b.toNat % 16) (by omega)
  have hb : UInt8.ofNat (16 * (b.toNat / 16) + b.toNat % 16) = b := by
    rw [Nat.div_add_mod]
    exact UInt8.ofNat_toNat
  simp only [hexPair, List.flatMap_cons, List.flatMap_nil, utf8EncodeChar_of_lt hhi,
    utf8EncodeChar_of_lt hlo, List.append_nil, List.cons_append, List.nil_append, hexDecodeBytes,
    hvhi, hvlo, h, hb]

theorem hexDecode_hexEncode (b : Bytes) : hexDecode (hexEncode b) = some b := by
  rw [hexDecode, hexEncode, str_ofList]
  induction b with
  | nil => rfl
  | cons x xs ih =>
    rw [List.flatMap_cons, List.flatMap_append]
    exact hexDecodeBytes_hexPair x ih

/-! ## JSON -/

/-- The errors of `cosmwasm_std` the code can raise. -/
inductive StdError where
  | notFound (kind : String)
  | genericErr (msg : String)
  | parseErr (target msg : String)
  | serializeErr (source msg : String)
  | overflow (operation : String)
  | invalidUtf8
deriving DecidableEq, Repr

/-- `to_json_vec` and `from_json` at one type, and the type's name, which the
not-found error carries. A text that was written parses back. -/
structure JsonCodec (α : Type) where
  typeName : String
  toJsonVec : α → Except StdError Bytes
  fromJson : Bytes → Except StdError α
  fromJson_toJsonVec : ∀ {x b}, toJsonVec x = .ok b → fromJson b = .ok x

/-- The serialiser inside a contract: a text and what is written around it
share a 32-bit address space. -/
structure WasmCodec (α : Type) extends JsonCodec α where
  length_toJsonVec : ∀ {x b}, toJsonVec x = .ok b → b.length < 2 ^ 30

namespace WasmCodec

variable {α : Type} [DecidableEq α]

def tableFrom (rows : List (α × Bytes)) (b : Bytes) : Except StdError α :=
  match rows.find? fun r => decide (r.2 = b) with
  | some r => .ok r.1
  | none => .error (.parseErr "" "")

def tableTo (rows : List (α × Bytes)) (x : α) : Except StdError Bytes :=
  match rows.find? fun r => decide (r.1 = x) with
  | some r =>
    match tableFrom rows r.2 with
    | .ok y => if y = x ∧ r.2.length < 2 ^ 30 then .ok r.2 else .error (.serializeErr "" "")
    | .error e => .error e
  | none => .error (.serializeErr "" "")

theorem tableTo_ok {rows : List (α × Bytes)} {x : α} {b : Bytes} (h : tableTo rows x = .ok b) :
    tableFrom rows b = .ok x ∧ b.length < 2 ^ 30 := by
  unfold tableTo at h
  split at h
  · rename_i r _
    cases hfrom : tableFrom rows r.2 with
    | error e => rw [hfrom] at h; cases h
    | ok y =>
      rw [hfrom] at h
      by_cases hy : y = x ∧ r.2.length < 2 ^ 30
      · simp only [if_pos hy] at h
        obtain rfl : r.2 = b := Except.ok.inj h
        exact ⟨by rw [hfrom, hy.1], hy.2⟩
      · simp only [if_neg hy] at h
        cases h
  · cases h

/-- The serialiser on finitely many values with the texts they have. -/
def table (rows : List (α × Bytes)) : WasmCodec α where
  typeName := ""
  toJsonVec := tableTo rows
  fromJson := tableFrom rows
  fromJson_toJsonVec h := (tableTo_ok h).1
  length_toJsonVec h := (tableTo_ok h).2

end WasmCodec

/-! ## JSON texts

The texts serde writes, for strings that need no escape. -/

def base64Char (n : Nat) : Char :=
  if n < 26 then Char.ofNat (65 + n)
  else if n < 52 then Char.ofNat (71 + n)
  else if n < 62 then Char.ofNat (n - 4)
  else if n = 62 then '+' else '/'

def base64Chars : Bytes → List Char
  | [] => []
  | [a] =>
    let n := a.toNat * 16
    [base64Char (n / 64), base64Char (n % 64), '=', '=']
  | [a, b] =>
    let n := (a.toNat * 256 + b.toNat) * 4
    [base64Char (n / 4096), base64Char (n / 64 % 64), base64Char (n % 64), '=']
  | a :: b :: c :: rest =>
    let n := (a.toNat * 256 + b.toNat) * 256 + c.toNat
    base64Char (n / 262144) :: base64Char (n / 4096 % 64) :: base64Char (n / 64 % 64) ::
      base64Char (n % 64) :: base64Chars rest

def base64Val (c : Char) : Option Nat :=
  let n := c.toNat
  if 65 ≤ n ∧ n ≤ 90 then some (n - 65)
  else if 97 ≤ n ∧ n ≤ 122 then some (n - 71)
  else if 48 ≤ n ∧ n ≤ 57 then some (n + 4)
  else if n = 43 then some 62
  else if n = 47 then some 63
  else none

/-- `STANDARD.decode`: padding is required and no bits may be left over. -/
def base64Decode : List Char → Option Bytes
  | [] => some []
  | a :: b :: c :: d :: rest => do
    let x ← base64Val a
    let y ← base64Val b
    if rest = [] ∧ d = '=' then
      if c = '=' then
        if y % 16 = 0 then some [UInt8.ofNat (x * 4 + y / 16)] else none
      else do
        let z ← base64Val c
        if z % 4 = 0 then some [UInt8.ofNat (x * 4 + y / 16), UInt8.ofNat (y % 16 * 16 + z / 4)]
        else none
    else do
      let z ← base64Val c
      let w ← base64Val d
      let bytes ← base64Decode rest
      some (UInt8.ofNat (x * 4 + y / 16) :: UInt8.ofNat (y % 16 * 16 + z / 4) ::
        UInt8.ofNat (z % 4 * 64 + w) :: bytes)
  | _ => none

theorem base64Val_base64Char : ∀ n < 64, base64Val (base64Char n) = some n ∧
    base64Char n ≠ '=' := by decide

theorem ofNat_eq_of_toNat {n : Nat} {a : UInt8} (h : n = a.toNat) : UInt8.ofNat n = a := by
  rw [h, UInt8.ofNat_toNat]

theorem base64Decode_base64Chars (b : Bytes) : base64Decode (base64Chars b) = some b := by
  have val {n : Nat} (h : n < 64) := (base64Val_base64Char n h).1
  have pad {n : Nat} (h : n < 64) := (base64Val_base64Char n h).2
  induction b using base64Chars.induct with
  | case1 => rfl
  | case2 a =>
    have ha := a.toNat_lt
    have hx : a.toNat * 16 / 64 < 64 := by omega
    have hy : a.toNat * 16 % 64 < 64 := by omega
    have hbyte : UInt8.ofNat (a.toNat * 16 / 64 * 4 + a.toNat * 16 % 64 / 16) = a :=
      ofNat_eq_of_toNat (by omega)
    have hbits : a.toNat * 16 % 64 % 16 = 0 := by omega
    simp only [base64Chars, base64Decode, val hx, val hy, hbits, hbyte, if_true, and_self,
      Option.bind_eq_bind, Option.bind_some]
  | case3 a b =>
    have ha := a.toNat_lt
    have hb := b.toNat_lt
    simp only [base64Chars]
    generalize hn : (a.toNat * 256 + b.toNat) * 4 = n
    have hx : n / 4096 < 64 := by omega
    have hy : n / 64 % 64 < 64 := by omega
    have hz : n % 64 < 64 := by omega
    have hbyte : UInt8.ofNat (n / 4096 * 4 + n / 64 % 64 / 16) = a :=
      ofNat_eq_of_toNat (by omega)
    have hbyte' : UInt8.ofNat (n / 64 % 64 % 16 * 16 + n % 64 / 4) = b :=
      ofNat_eq_of_toNat (by omega)
    have hbits : n % 64 % 4 = 0 := by omega
    simp only [base64Decode, val hx, val hy, val hz, pad hz, hbits, hbyte, hbyte', if_true,
      if_false, and_self, Option.bind_eq_bind, Option.bind_some]
  | case4 a b c rest ih =>
    have ha := a.toNat_lt
    have hb := b.toNat_lt
    have hc := c.toNat_lt
    simp only [base64Chars]
    generalize hn : (a.toNat * 256 + b.toNat) * 256 + c.toNat = n
    have hx : n / 262144 < 64 := by omega
    have hy : n / 4096 % 64 < 64 := by omega
    have hz : n / 64 % 64 < 64 := by omega
    have hw : n % 64 < 64 := by omega
    have hbyte : UInt8.ofNat (n / 262144 * 4 + n / 4096 % 64 / 16) = a :=
      ofNat_eq_of_toNat (by omega)
    have hbyte' : UInt8.ofNat (n / 4096 % 64 % 16 * 16 + n / 64 % 64 / 4) = b :=
      ofNat_eq_of_toNat (by omega)
    have hbyte'' : UInt8.ofNat (n / 64 % 64 % 4 * 64 + n % 64) = c :=
      ofNat_eq_of_toNat (by omega)
    simp only [base64Decode, val hx, val hy, val hz, val hw, pad hw, ih, hbyte, hbyte', hbyte'',
      and_false, if_false, Option.bind_eq_bind, Option.bind_some]

def quoted (s : Bytes) : Bytes := str "\"" ++ s ++ str "\""

def binaryJson (b : Bytes) : Bytes := quoted (str (String.ofList (base64Chars b)))

def numberJson (n : Nat) : Bytes := str (Nat.repr n)

def commaSeparated : List Bytes → Bytes
  | [] => []
  | [x] => x
  | x :: rest => x ++ str "," ++ commaSeparated rest

def objectJson (fields : List (String × Bytes)) : Bytes :=
  str "\x7b" ++ commaSeparated (fields.map fun f => quoted (str f.1) ++ str ":" ++ f.2) ++ str "\x7d"

def optionJson {α : Type} (f : α → Bytes) (x : Option α) : Bytes :=
  match x with
  | some a => f a
  | none => str "null"

def arrayJson (items : List Bytes) : Bytes := str "[" ++ commaSeparated items ++ str "]"

/-- A `Vec<u8>` or an array without a string wrapper: numbers. -/
def byteArrayJson (b : Bytes) : Bytes := arrayJson (b.map fun x => numberJson x.toNat)

end LayerSdk

import Bson.ObjectId
import Bson.Proofs.Grammar.Arrays
import Bson.Text.Base64

/-!
# Texts that are read back

Bytes and integers are read back from the texts that are written for them.

* `Hex.decode_digits`, `Hex.natural?_ofByte`: bytes in hexadecimal digits.
* `Base64.decode?_encode`: bytes in base64.
* `integer?_toString`: integers in decimal digits, behind a sign if they are negative.
-/

namespace Bson

theorem toByteArray_toList (bytes : ByteArray) : bytes.data.toList.toByteArray = bytes :=
  ByteArray.ext (Array.toList_inj.1 List.toList_data_toByteArray)

namespace Text

/-! ### Signs -/

theorem splitSign_of_ne {cs : List Char} (hplus : cs.head? ≠ some '+')
    (hminus : cs.head? ≠ some '-') : splitSign cs = (none, cs) := by
  unfold splitSign
  split
  · exact absurd rfl hplus
  · exact absurd rfl hminus
  · rfl

/-! ### Hexadecimal digits -/

namespace Hex

/-- What holds of the numbers below a bound holds of the bytes below it. -/
theorem of_forall_lt {P : UInt8 → Prop} {bound : Nat} (h : ∀ k < bound, P (UInt8.ofNat k))
    {n : UInt8} (hn : n.toNat < bound) : P n := by
  rw [← UInt8.ofNat_toNat (x := n)]
  exact h _ hn

theorem utf8EncodeChar_digit {n : UInt8} (hn : n.toNat < 16) :
    String.utf8EncodeChar (digit n) = [UInt8.ofNat (digit n).toNat] :=
  of_forall_lt (P := fun n => String.utf8EncodeChar (digit n) = [UInt8.ofNat (digit n).toNat])
    (by decide) hn

theorem digit?_digit {n : UInt8} (hn : n.toNat < 16) :
    digit? (UInt8.ofNat (digit n).toNat) = some n :=
  of_forall_lt (P := fun n => digit? (UInt8.ofNat (digit n).toNat) = some n) (by decide) hn

theorem digit?_sixteen_digit {n : UInt8} (hn : n.toNat < 16) :
    Text.digit? 16 (digit n) = some n.toNat :=
  of_forall_lt (P := fun n => Text.digit? 16 (digit n) = some n.toNat) (by decide) hn

theorem digit_ne_sign {n : UInt8} (hn : n.toNat < 16) : digit n ≠ '+' ∧ digit n ≠ '-' :=
  of_forall_lt (P := fun n => digit n ≠ '+' ∧ digit n ≠ '-') (by decide) hn

theorem toNat_high_lt (b : UInt8) : (b / 16).toNat < 16 := by
  have hb := b.toNat_lt
  rw [UInt8.toNat_div]
  change b.toNat / 16 < 16
  omega

theorem toNat_low_lt (b : UInt8) : (b % 16).toNat < 16 := by
  rw [UInt8.toNat_mod]
  exact Nat.mod_lt _ (by decide)

theorem high_mul_add_low (b : UInt8) : b / 16 * 16 + b % 16 = b := by
  have hb := b.toNat_lt
  rw [← UInt8.toNat_inj, UInt8.toNat_add, UInt8.toNat_mul, UInt8.toNat_div, UInt8.toNat_mod]
  change (b.toNat / 16 * 16 % 256 + b.toNat % 16) % 256 = b.toNat
  omega

/-- The two digits of a byte, as bytes of text. -/
theorem utf8Encode_ofByte (b : UInt8) (l : List Char) :
    (ofByte b ++ l).utf8Encode.data.toList =
      UInt8.ofNat (digit (b / 16)).toNat :: UInt8.ofNat (digit (b % 16)).toNat ::
        l.utf8Encode.data.toList := by
  rw [ofByte, List.cons_append, List.cons_append, List.nil_append, List.utf8Encode_cons,
    List.utf8Encode_singleton, List.utf8Encode_cons, List.utf8Encode_singleton,
    utf8EncodeChar_digit (toNat_high_lt b), utf8EncodeChar_digit (toNat_low_lt b),
    ByteArray.data_append, ByteArray.data_append, Array.toList_append, Array.toList_append,
    List.toList_data_toByteArray, List.toList_data_toByteArray]
  rfl

theorem decodeFrom_ofByte (position : Nat) (bytes : List UInt8) :
    decodeFrom position (bytes.flatMap ofByte).utf8Encode.data.toList = .ok bytes := by
  induction bytes generalizing position with
  | nil => rfl
  | cons b rest ih =>
    rw [List.flatMap_cons, utf8Encode_ofByte, decodeFrom, digitAt, digitAt,
      digit?_digit (toNat_high_lt b), digit?_digit (toNat_low_lt b)]
    change Except.bind (decodeFrom (position + 2) _) _ = _
    rw [ih]
    change Except.ok ((b / 16 * 16 + b % 16) :: rest) = _
    rw [high_mul_add_low]

theorem length_utf8Encode_ofByte (bytes : List UInt8) :
    (bytes.flatMap ofByte).utf8Encode.data.toList.length = 2 * bytes.length := by
  induction bytes with
  | nil => rfl
  | cons b rest ih =>
    rw [List.flatMap_cons, utf8Encode_ofByte, List.length_cons, List.length_cons, ih,
      List.length_cons]
    rfl

theorem decode_eq (s : String) :
    decode s = if s.toUTF8.data.toList.length % 2 = 1 then .error .oddLength
      else (decodeFrom 0 s.toUTF8.data.toList).map List.toByteArray := by
  unfold decode
  by_cases hodd : s.toUTF8.data.toList.length % 2 = 1
  · simp only [if_pos hodd]
    rfl
  · simp only [if_neg hodd]
    cases decodeFrom 0 s.toUTF8.data.toList <;> rfl

/-- Bytes are read back from their digits. -/
theorem decode_digits (bytes : ByteArray) : decode (encode bytes) = .ok bytes := by
  have hutf8 : (encode bytes).toUTF8.data.toList =
      (bytes.data.toList.flatMap ofByte).utf8Encode.data.toList := rfl
  have heven : ¬(bytes.data.toList.flatMap ofByte).utf8Encode.data.toList.length % 2 = 1 := by
    rw [length_utf8Encode_ofByte]
    omega
  rw [decode_eq, hutf8, if_neg heven, decodeFrom_ofByte]
  change Except.ok bytes.data.toList.toByteArray = _
  rw [toByteArray_toList]

/-- So is a byte that is read as a number. -/
theorem natural?_ofByte (b : UInt8) :
    natural? 16 256 (String.ofList (ofByte b)) = some b.toNat := by
  have hb := b.toNat_lt
  have hsign := digit_ne_sign (toNat_high_lt b)
  have hvalue : (b / 16).toNat * 16 + (b % 16).toNat = b.toNat := by
    rw [UInt8.toNat_div, UInt8.toNat_mod]
    change b.toNat / 16 * 16 + b.toNat % 16 = b.toNat
    omega
  have hdigits : digitsValue? 16 (ofByte b) = some b.toNat := by
    change (Text.digit? 16 (digit (b / 16))).bind (fun d => digitsFrom? 16 (16 * 0 + d)
      [digit (b % 16)]) = _
    rw [digit?_sixteen_digit (toNat_high_lt b)]
    change (Text.digit? 16 (digit (b % 16))).bind
      (fun d => some (16 * (16 * 0 + (b / 16).toNat) + d)) = _
    rw [digit?_sixteen_digit (toNat_low_lt b), Option.bind_some, Option.some.injEq]
    omega
  have hsplit : splitSign (ofByte b) = (none, ofByte b) :=
    splitSign_of_ne (fun h => hsign.1 (Option.some.inj h)) fun h => hsign.2 (Option.some.inj h)
  unfold natural?
  rw [String.toList_ofList, hsplit]
  change (digitsValue? 16 (ofByte b)).filter _ = _
  rw [hdigits, Option.filter_some]
  exact if_pos (decide_eq_true hb)

end Hex

/-! ### Base64 -/

namespace Base64

theorem symbolValue?_symbol : ∀ {n : Nat}, n < 64 → symbolValue? (symbol n) = some n := by
  decide

theorem symbol_ne_fill : ∀ {n : Nat}, n < 64 → symbol n ≠ '=' := by decide

theorem encodeList_eq_nil {bytes : List UInt8} : encodeList bytes = [] ↔ bytes = [] := by
  match bytes with
  | [] => exact ⟨fun _ => rfl, fun _ => rfl⟩
  | [_] | [_, _] | _ :: _ :: _ :: _ =>
    exact iff_of_false (List.cons_ne_nil _ _) (List.cons_ne_nil _ _)

theorem first_of_sextets (a b : UInt8) :
    a.toNat / 4 * 4 + (a.toNat % 4 * 16 + b.toNat / 16) / 16 = a.toNat := by
  have hb := b.toNat_lt
  omega

theorem second_of_sextets (a b c : UInt8) :
    (a.toNat % 4 * 16 + b.toNat / 16) % 16 * 16 + (b.toNat % 16 * 4 + c.toNat / 64) / 4 =
      b.toNat := by
  have hb := b.toNat_lt
  have hc := c.toNat_lt
  omega

theorem third_of_sextets (b c : UInt8) :
    (b.toNat % 16 * 4 + c.toNat / 64) % 4 * 64 + c.toNat % 64 = c.toNat := by
  have hc := c.toNat_lt
  omega

/-- The characters of three bytes have the numbers that they were made from. -/
theorem symbolValues_group (a b c : UInt8) :
    symbolValue? (symbol (a.toNat / 4)) = some (a.toNat / 4) ∧
      symbolValue? (symbol (a.toNat % 4 * 16 + b.toNat / 16)) =
        some (a.toNat % 4 * 16 + b.toNat / 16) ∧
      symbolValue? (symbol (b.toNat % 16 * 4 + c.toNat / 64)) =
        some (b.toNat % 16 * 4 + c.toNat / 64) ∧
      symbolValue? (symbol (c.toNat % 64)) = some (c.toNat % 64) := by
  have ha := a.toNat_lt
  have hb := b.toNat_lt
  have hc := c.toNat_lt
  exact ⟨symbolValue?_symbol (by omega), symbolValue?_symbol (by omega),
    symbolValue?_symbol (by omega), symbolValue?_symbol (by omega)⟩

/-- Three bytes that others follow. -/
theorem decodeList?_group_append (a b c : UInt8) {rest : List Char} (hne : rest ≠ []) :
    decodeList? (group a.toNat b.toNat c.toNat ++ rest) =
      (decodeList? rest).map ([a, b, c] ++ ·) := by
  obtain ⟨hx, hy, hz, hw⟩ := symbolValues_group a b c
  rw [group, List.cons_append, List.cons_append, List.cons_append, List.cons_append,
    List.nil_append, decodeList?, hx, hy, hz, hw]
  simp only [List.isEmpty_eq_false_iff.2 hne, Option.bind_eq_bind, Option.bind_some, List.map_cons,
    List.map_nil, first_of_sextets, second_of_sextets, third_of_sextets, UInt8.ofNat_toNat]
  cases decodeList? rest <;> rfl

/-- The last three bytes. -/
theorem decodeList?_group (a b c : UInt8) :
    decodeList? (group a.toNat b.toNat c.toNat) = some [a, b, c] := by
  have hb := b.toNat_lt
  have hc := c.toNat_lt
  obtain ⟨hx, hy, hz, hw⟩ := symbolValues_group a b c
  have hfull : ¬(symbol (b.toNat % 16 * 4 + c.toNat / 64) = '=' ∧ symbol (c.toNat % 64) = '=') :=
    fun h => symbol_ne_fill (by omega) h.2
  have hlast : symbol (c.toNat % 64) ≠ '=' := symbol_ne_fill (by omega)
  rw [group, decodeList?, hx, hy]
  simp only [List.isEmpty_nil, if_true, Option.bind_eq_bind, Option.bind_some, decodeLast,
    if_neg hfull, if_neg hlast, hz, hw, first_of_sextets, second_of_sextets, third_of_sextets,
    UInt8.ofNat_toNat, Option.pure_def]

/-- The last two bytes, if two are left. -/
theorem decodeList?_pair (a b : UInt8) :
    decodeList? ((group a.toNat b.toNat 0).take 3 ++ ['=']) = some [a, b] := by
  have hb := b.toNat_lt
  obtain ⟨hx, hy, hz, -⟩ := symbolValues_group a b 0
  have hfull : ¬symbol (b.toNat % 16 * 4 + UInt8.toNat 0 / 64) = '=' :=
    symbol_ne_fill (by change b.toNat % 16 * 4 + 0 / 64 < 64; omega)
  have hzero : (b.toNat % 16 * 4 + UInt8.toNat 0 / 64) % 4 = 0 := by
    change (b.toNat % 16 * 4 + 0 / 64) % 4 = 0
    omega
  change decodeList? [symbol (a.toNat / 4), symbol (a.toNat % 4 * 16 + b.toNat / 16),
    symbol (b.toNat % 16 * 4 + UInt8.toNat 0 / 64), '='] = _
  rw [decodeList?, hx, hy]
  simp only [List.isEmpty_nil, if_true, Option.bind_eq_bind, Option.bind_some, decodeLast,
    hfull, false_and, if_false, hz, hzero, first_of_sextets, second_of_sextets, UInt8.ofNat_toNat,
    Option.pure_def]

/-- The last byte, if one is left. -/
theorem decodeList?_single (a : UInt8) :
    decodeList? ((group a.toNat 0 0).take 2 ++ ['=', '=']) = some [a] := by
  obtain ⟨hx, hy, -, -⟩ := symbolValues_group a 0 0
  have hzero : (a.toNat % 4 * 16 + UInt8.toNat 0 / 16) % 16 = 0 := by
    change (a.toNat % 4 * 16 + 0 / 16) % 16 = 0
    omega
  change decodeList? [symbol (a.toNat / 4), symbol (a.toNat % 4 * 16 + UInt8.toNat 0 / 16), '=',
    '='] = _
  rw [decodeList?, hx, hy]
  simp only [List.isEmpty_nil, if_true, Option.bind_eq_bind, Option.bind_some, decodeLast,
    and_self, hzero, first_of_sextets, UInt8.ofNat_toNat]

theorem decodeList?_encodeList (bytes : List UInt8) :
    decodeList? (encodeList bytes) = some bytes := by
  match bytes with
  | [] => rfl
  | [a] => exact decodeList?_single a
  | [a, b] => exact decodeList?_pair a b
  | a :: b :: c :: rest =>
    rw [encodeList]
    by_cases hrest : rest = []
    · rw [hrest]
      exact decodeList?_group a b c
    · rw [decodeList?_group_append a b c fun h => hrest (encodeList_eq_nil.1 h),
        decodeList?_encodeList rest]
      rfl

/-- Bytes are read back from their text. -/
theorem decode?_encode (bytes : ByteArray) : decode? (encode bytes) = some bytes := by
  rw [decode?, encode, String.toList_ofList, decodeList?_encodeList, Option.map_some,
    toByteArray_toList]

end Base64

/-! ### Integers -/

theorem isDigit_of_mem_toDigits {n : Nat} : ∀ c ∈ Nat.toDigits 10 n, c.isDigit := fun _ hc =>
  Nat.isDigit_of_mem_toDigits (by decide) (by decide) hc

theorem isDigit_of_mem_replicate (k : Nat) : ∀ c ∈ List.replicate k '0', c.isDigit := fun _ hc =>
  List.eq_of_mem_replicate hc ▸ rfl

theorem digitsValue?_toDigits (n : Nat) : digitsValue? 10 (Nat.toDigits 10 n) = some n :=
  digitsValue?_eq_some.2
    ⟨Nat.toDigits_ne_nil, isDigit_of_mem_toDigits, Nat.ofDigitChars_ten_toDigits.symm⟩

/-- The characters of a sign that is shown if it is negative. -/
def signChars (negative : Bool) : List Char := if negative then ['-'] else []

/-- The sign that is read from these characters. -/
def signOf (negative : Bool) : Option Char := if negative then some '-' else none

theorem splitSign_signChars (negative : Bool) {cs : List Char}
    (h : ∀ c ∈ cs.head?, c.isDigit) :
    splitSign (signChars negative ++ cs) = (signOf negative, cs) := by
  cases negative
  · have hne : ∀ c : Char, ¬c.isDigit → cs.head? ≠ some c := fun c hc hhead => hc (h c hhead)
    exact splitSign_of_ne (hne _ (by decide)) (hne _ (by decide))
  · rfl

/-- The digits of an integer, behind its sign. -/
theorem toList_toString (n : Int) :
    (toString n).toList = signChars (n < 0) ++ Nat.toDigits 10 n.natAbs := by
  cases n with
  | ofNat m =>
    change (toString m).toList = signChars (decide ((m : Int) < 0)) ++ Nat.toDigits 10 m
    rw [decide_eq_false (by omega), Nat.toString_eq_ofList_toDigits, String.toList_ofList]
    rfl
  | negSucc m =>
    change ("-" ++ toString (m + 1)).toList = _ ++ Nat.toDigits 10 (m + 1)
    rw [decide_eq_true (Int.negSucc_lt_zero m), Nat.toString_eq_ofList_toDigits,
      String.toList_append]
    exact congrArg ('-' :: ·) String.toList_ofList

/-- An integer is read back from its digits. -/
theorem integer?_toString {least greatest n : Int} (hleast : least ≤ n) (hgreatest : n ≤ greatest) :
    integer? least greatest (toString n) = some n := by
  have hhead : ∀ c ∈ (Nat.toDigits 10 n.natAbs).head?, c.isDigit := fun c hc =>
    isDigit_of_mem_toDigits c (List.mem_of_mem_head? hc)
  have hvalue : (if signOf (n < 0) = some '-' then -(n.natAbs : Int) else n.natAbs) = n := by
    by_cases hneg : n < 0
    · rw [decide_eq_true hneg]
      exact (if_pos rfl).trans (by omega)
    · rw [decide_eq_false hneg]
      exact (if_neg (fun h => nomatch h)).trans (by omega)
  rw [integer?, toList_toString, splitSign_signChars _ hhead]
  simp only [digitsValue?_toDigits, Option.bind_some, hvalue]
  exact if_pos ⟨hleast, hgreatest⟩

end Text

end Bson

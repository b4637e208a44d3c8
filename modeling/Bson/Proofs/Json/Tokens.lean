import Bson.Proofs.Json.Numbers

/-!
# The tokens of written JSON

Indented JSON is cut into the tokens of its value, with the doubles that are read back. What is
written ends where a delimiter follows, so the statements are about characters in front of any text
that begins with one.

* `Json.tokens`: the tokens of a value.
* `Json.reread`: the value with the doubles that are read back; it is the value itself if all its
  doubles are short (`Json.reread_eq_self`).
* `Json.Proper`: values whose numbers are written as what they are: finite doubles, and integers
  beyond the signed range only as such.
* `Json.Token.Scans`: characters are cut into tokens, in front of a given rest. `scans_word`,
  `scans_quote` and their like are one for each kind of token.
* `Json.scan_pretty`: the tokens of indented JSON.
-/

namespace Bson.Json

namespace Token

/-- Whether a character ends a word. -/
def IsDelimiter (c : Char) : Prop := (ofPunctuation? c).isSome ∨ isBlank c ∨ c = '"'

instance (c : Char) : Decidable (IsDelimiter c) :=
  inferInstanceAs (Decidable ((ofPunctuation? c).isSome ∨ isBlank c ∨ c = '"'))

/-- Whether a text is empty or begins with a character that ends a word. -/
def Delimited (rest : List Char) : Prop := ∀ c ∈ rest.head?, IsDelimiter c

/-- The characters `cs` are cut into the tokens `ts` in front of `rest`. -/
def Scans (cs : List Char) (ts : List Token) (rest : List Char) : Prop :=
  scanFrom .ready (cs ++ rest) = (scanFrom .ready rest).map (ts ++ ·)

variable {c : Char} {cs ds rest chars : List Char} {ts us : List Token} {t : Token}
  {mode mode' : Mode}

theorem delimited_nil : Delimited [] := fun c hc => absurd hc (Option.not_mem_none c)

theorem delimited_cons (hc : IsDelimiter c) : Delimited (c :: rest) := fun _ hd =>
  Option.some.inj hd ▸ hc

theorem scanFrom_cons (h : step? mode c = some (mode', ts)) :
    scanFrom mode (c :: rest) = (scanFrom mode' rest).map (ts ++ ·) := by
  rw [scanFrom, h]
  cases hrest : scanFrom mode' rest <;> simp [hrest]

/-- A step that completes no token. -/
theorem scanFrom_cons_nil (h : step? mode c = some (mode', [])) :
    scanFrom mode (c :: rest) = scanFrom mode' rest := by
  rw [scanFrom_cons h]
  exact Option.map_id'

namespace Scans

theorem nil : Scans [] [] rest := by
  unfold Scans
  exact Option.map_id'.symm

theorem append (hcs : Scans cs ts (ds ++ rest)) (hds : Scans ds us rest) :
    Scans (cs ++ ds) (ts ++ us) rest := by
  unfold Scans at *
  rw [List.append_assoc, hcs, hds, Option.map_map]
  simp only [Function.comp_def, List.append_assoc]

/-- Characters that complete no token may follow. -/
theorem append_blank (hcs : Scans cs ts (ds ++ rest)) (hds : Scans ds [] rest) :
    Scans (cs ++ ds) ts rest :=
  List.append_nil ts ▸ hcs.append hds

end Scans

/-! ### Punctuation and blanks -/

theorem scans_punctuation (h : ofPunctuation? c = some t) : Scans [c] [t] rest := by
  refine scanFrom_cons ?_
  rw [step?, start, h]

theorem scans_blank (hblank : c = ' ' ∨ c = '\n') : Scans [c] [] rest := by
  refine scanFrom_cons ?_
  rcases hblank with rfl | rfl <;> rfl

theorem scans_newline (level : Nat) : Scans (newline level).toList [] rest := by
  have hspaces : ∀ n, Scans (List.replicate n ' ') [] rest := fun n => by
    induction n with
    | zero => exact .nil
    | succ n ih => exact (scans_blank (.inl rfl)).append ih
  rw [newline, String.toList_ofList]
  exact (scans_blank (.inr rfl)).append (hspaces _)

/-! ### Words -/

theorem step?_ready_of_not (h : ¬IsDelimiter c) : step? .ready c = some (.word [c], []) := by
  obtain ⟨hpunctuation, hblank, hquote⟩ : ofPunctuation? c = none ∧ ¬isBlank c ∧ c ≠ '"' := by
    simpa only [IsDelimiter, not_or, Option.not_isSome_iff_eq_none] using h
  rw [step?, start, hpunctuation]
  exact congrArg some ((if_neg hblank).trans (if_neg hquote))

/-- Characters of a word are taken as long as they come. -/
theorem scanFrom_word (h : ∀ c ∈ cs, ¬IsDelimiter c) :
    scanFrom (.word chars) (cs ++ rest) = scanFrom (.word (cs.reverse ++ chars)) rest := by
  induction cs generalizing chars with
  | nil => rfl
  | cons c cs ih =>
    obtain ⟨hc, hcs⟩ := List.forall_mem_cons.1 h
    have hstep : step? (.word chars) c = some (.word (c :: chars), []) := by
      rw [step?]
      exact if_neg hc
    rw [List.cons_append, scanFrom_cons_nil hstep, ih hcs, List.reverse_cons, List.append_assoc,
      List.singleton_append]

/-- A word ends at a delimiter. -/
theorem scanFrom_word_end (hrest : Delimited rest) (hword : ofWord? chars.reverse = some t) :
    scanFrom (.word chars) rest = (scanFrom .ready rest).map (t :: ·) := by
  cases rest with
  | nil =>
    rw [scanFrom, finish?, hword]
    rfl
  | cons c rest =>
    have hstep : step? (.word chars) c = some ((start c).1, t :: (start c).2) := by
      rw [step?]
      exact (if_pos (hrest c rfl)).trans (congrArg (Option.map _) hword)
    rw [scanFrom_cons hstep, scanFrom_cons (show step? .ready c = some (start c) from rfl),
      Option.map_map]
    rfl

/-- That no character of a text ends a word can be computed. -/
theorem forall_not_isDelimiter (h : cs.all (¬IsDelimiter ·)) : ∀ c ∈ cs, ¬IsDelimiter c :=
  fun c hc => of_decide_eq_true (List.all_eq_true.1 h c hc)

theorem not_isDelimiter_of_isNumeralChar (h : Text.Numeral.IsNumeralChar c) : ¬IsDelimiter c := by
  rcases h with hdigit | hmem
  · have hne : ∀ d : Char, ¬d.isDigit → c ≠ d := fun d hd heq => hd (heq ▸ hdigit)
    rintro (hpunctuation | hblank | hquote)
    · unfold ofPunctuation? at hpunctuation
      split at hpunctuation <;> first | exact hne _ (by decide) rfl | cases hpunctuation
    · rcases of_decide_eq_true hblank with h | h | h | h <;> exact hne _ (by decide) h
    · exact hne _ (by decide) hquote
  · exact forall_not_isDelimiter (by decide) c hmem

/-- The characters of a word: there is one, and none ends it. -/
theorem chars_of_ofWord? (h : ofWord? cs = some t) : cs ≠ [] ∧ ∀ c ∈ cs, ¬IsDelimiter c := by
  refine ⟨fun hnil => ?_, ?_⟩
  · rw [hnil, show ofWord? [] = none by decide] at h
    cases h
  · unfold ofWord? at h
    split at h
    next hnull => exact forall_not_isDelimiter (hnull ▸ by decide)
    split at h
    next htrue => exact forall_not_isDelimiter (htrue ▸ by decide)
    split at h
    next hfalse => exact forall_not_isDelimiter (hfalse ▸ by decide)
    obtain ⟨n, hn, -⟩ := Option.bind_eq_some_iff.1 h
    exact fun c hc => not_isDelimiter_of_isNumeralChar
      (Text.Numeral.forall_mem_of_ofChars? (Option.filter_eq_some_iff.1 hn).1 c hc)

/-- A word is a token. -/
theorem scans_word (hword : ofWord? cs = some t) (hrest : Delimited rest) : Scans cs [t] rest := by
  obtain ⟨hne, hchars⟩ := chars_of_ofWord? hword
  obtain ⟨c, cs, rfl⟩ := List.exists_cons_of_ne_nil hne
  obtain ⟨hc, hcs⟩ := List.forall_mem_cons.1 hchars
  have hreverse : (cs.reverse ++ [c]).reverse = c :: cs := by
    rw [List.reverse_append, List.reverse_reverse, List.reverse_singleton, List.singleton_append]
  unfold Scans
  rw [List.cons_append, scanFrom_cons_nil (step?_ready_of_not hc), scanFrom_word hcs,
    scanFrom_word_end hrest (hreverse ▸ hword)]
  rfl

/-! ### Strings -/

theorem digit?_digitChar : ∀ {n : Nat}, n < 16 → Text.digit? 16 n.digitChar = some n := by decide

theorem unescape?_of_shortEscape? {letter : Char} (h : shortEscape? c = some letter) :
    letter ≠ 'u' ∧ unescape? letter = some c := by
  unfold shortEscape? at h
  repeat
    split at h
    · rename_i heq
      cases h
      rw [heq]
      exact ⟨by decide, rfl⟩
  cases h

theorem scanFrom_escaped {letter : Char} (hne : letter ≠ 'u') (hback : unescape? letter = some c) :
    scanFrom (.text chars) ('\\' :: letter :: rest) = scanFrom (.text (c :: chars)) rest := by
  have hletter : step? (.escape chars) letter = some (.text (c :: chars), []) := by
    rw [step?, if_neg hne, hback, Option.map_some]
  rw [scanFrom_cons_nil (show step? (.text chars) '\\' = some (.escape chars, []) from rfl),
    scanFrom_cons_nil hletter]

/-- A code unit below U+0020, whose first two digits are zeros. -/
theorem scanFrom_codeUnit {n : Nat} (h : n < 0x20) :
    scanFrom (.text chars)
        ('\\' :: 'u' :: '0' :: '0' :: (n / 16).digitChar :: (n % 16).digitChar :: rest) =
      scanFrom (.text (Char.ofNat n :: chars)) rest := by
  have hhigh : step? (.unit chars 2 0) (n / 16).digitChar = some (.unit chars 3 (n / 16), []) := by
    rw [step?, digit?_digitChar (by omega), Option.bind_some, if_neg (by decide), Nat.zero_mul,
      Nat.zero_add]
  have hlow : step? (.unit chars 3 (n / 16)) (n % 16).digitChar =
      some (.text (Char.ofNat n :: chars), []) := by
    rw [step?, digit?_digitChar (by omega), Option.bind_some, if_pos rfl,
      show n / 16 * 16 + n % 16 = n by omega, afterUnit?, if_neg (by omega), if_neg (by omega),
      Option.map_some]
  rw [scanFrom_cons_nil (show step? (.text chars) '\\' = some (.escape chars, []) from rfl),
    scanFrom_cons_nil (show step? (.escape chars) 'u' = some (.unit chars 0 0, []) from rfl),
    scanFrom_cons_nil (show step? (.unit chars 0 0) '0' = some (.unit chars 1 0, []) from rfl),
    scanFrom_cons_nil (show step? (.unit chars 1 0) '0' = some (.unit chars 2 0, []) from rfl),
    scanFrom_cons_nil hhigh, scanFrom_cons_nil hlow]

/-- A character of a string is found again. -/
theorem scanFrom_escape (c : Char) :
    scanFrom (.text chars) (Json.escape c ++ rest) = scanFrom (.text (c :: chars)) rest := by
  rw [Json.escape]
  split
  · -- a quote or a backslash, which stands for itself behind a backslash
    rename_i hself
    rcases hself with rfl | rfl <;> exact scanFrom_escaped (by decide) rfl
  · rename_i hplain
    rw [not_or] at hplain
    split
    · -- a control character: a letter stands for it, or its number
      rename_i hcontrol
      split
      · rename_i letter hshort
        obtain ⟨hne, hback⟩ := unescape?_of_shortEscape? hshort
        exact scanFrom_escaped hne hback
      · have hunit : scanFrom (.text chars) _ =
            scanFrom (.text (Char.ofNat c.toNat :: chars)) rest := scanFrom_codeUnit hcontrol
        rwa [Char.ofNat_toNat] at hunit
    · rename_i hcontrol
      refine scanFrom_cons_nil ?_
      rw [step?, if_neg hplain.1, if_neg hplain.2, if_neg hcontrol]

theorem scanFrom_text :
    scanFrom (.text chars) (cs.flatMap Json.escape ++ '"' :: rest) =
      (scanFrom .ready rest).map (.string (String.ofList (chars.reverse ++ cs)) :: ·) := by
  induction cs generalizing chars with
  | nil =>
    have hend : step? (.text chars) '"' =
        some (.ready, [.string (String.ofList chars.reverse)]) := rfl
    rw [List.append_nil]
    exact scanFrom_cons hend
  | cons c cs ih =>
    rw [List.flatMap_cons, List.append_assoc, scanFrom_escape, ih, List.reverse_cons,
      List.append_assoc, List.singleton_append]

/-- A string in quotes is one token. -/
theorem scans_quote (s : String) : Scans (quote s).toList [.string s] rest := by
  unfold Scans
  rw [quote, String.toList_ofList, List.singleton_append, List.cons_append, List.cons_append,
    List.append_assoc, scanFrom_cons_nil (show step? .ready '"' = some (.text [], []) from rfl)]
  refine scanFrom_text.trans ?_
  rw [List.reverse_nil, List.nil_append, String.ofList_toList]
  rfl

end Token

/-! ### Values -/

mutual

/-- Whether every double of a value is finite and every unsigned integer is beyond the signed
range. -/
def Proper : Json → Prop
  | .array items => ProperItems items
  | .object fields => ProperFields fields.entries
  | .double x => x.isFinite
  | .largeInteger n => 2 ^ 63 ≤ n.toNat
  | _ => True

/-- The same of the items of an array. -/
def ProperItems : List Json → Prop
  | [] => True
  | v :: rest => Proper v ∧ ProperItems rest

/-- The same of the fields of an object. -/
def ProperFields : {keys : List String} → Entries Json keys → Prop
  | _, .nil => True
  | _, .snoc init _ v _ => ProperFields init ∧ Proper v

end

mutual

/-- A value with the doubles that are read from their texts. -/
def reread : Json → Json
  | .array items => .array (rereadItems items)
  | .object fields => .object ⟨rereadFields fields.entries⟩
  | .double x => .double (readBack x)
  | v => v

/-- Items with the doubles that are read. -/
def rereadItems : List Json → List Json
  | [] => []
  | v :: rest => reread v :: rereadItems rest

/-- Fields with the doubles that are read. -/
def rereadFields : {keys : List String} → Entries Json keys → Entries Json keys
  | _, .nil => .nil
  | _, .snoc init key v fresh => .snoc (rereadFields init) key (reread v) fresh

end

mutual

/-- Whether every double of a value is short. -/
def Short : Json → Prop
  | .array items => ShortItems items
  | .object fields => ShortFields fields.entries
  | .double x => IsShort x
  | _ => True

/-- The same of the items of an array. -/
def ShortItems : List Json → Prop
  | [] => True
  | v :: rest => Short v ∧ ShortItems rest

/-- The same of the fields of an object. -/
def ShortFields : {keys : List String} → Entries Json keys → Prop
  | _, .nil => True
  | _, .snoc init _ v _ => ShortFields init ∧ Short v

end

mutual

/-- The tokens of a value. -/
def tokens : Json → List Token
  | .array items => [.openArray] ++ itemTokens true items ++ [.closeArray]
  | .object fields => [.openObject] ++ fieldTokens fields.entries ++ [.closeObject]
  | .null => [.null]
  | .bool b => [.bool b]
  | .integer n => [.integer n]
  | .largeInteger n => [.largeInteger n]
  | .double x => [.double x]
  | .string s => [.string s]

/-- The tokens of items; a comma stands before each but the first. -/
def itemTokens : Bool → List Json → List Token
  | _, [] => []
  | first, v :: rest => (if first then [] else [.comma]) ++ tokens v ++ itemTokens false rest

/-- The tokens of fields; a comma stands between them. -/
def fieldTokens : {keys : List String} → Entries Json keys → List Token
  | _, .nil => []
  | _, @Entries.snoc _ before init key v _ =>
    fieldTokens init ++ (if before.isEmpty then [] else [.comma]) ++ [.string key] ++ [.colon] ++
      tokens v

end

mutual

/-- A value whose doubles are short is read back as it is. -/
theorem reread_eq_self : ∀ (v : Json), v.Short → v.reread = v
  | .null, _ | .bool _, _ | .integer _, _ | .largeInteger _, _ | .string _, _ => rfl
  | .double _, h => congrArg Json.double (readBack_eq_self h)
  | .array items, h => congrArg Json.array (rereadItems_eq_self items h)
  | .object ⟨entries⟩, h =>
    congrArg (fun entries => Json.object ⟨entries⟩) (rereadFields_eq_self entries h)

theorem rereadItems_eq_self : ∀ (items : List Json), ShortItems items → rereadItems items = items
  | [], _ => rfl
  | v :: rest, h => by
    rw [rereadItems, reread_eq_self v h.1, rereadItems_eq_self rest h.2]

theorem rereadFields_eq_self : ∀ {keys : List String} (fields : Entries Json keys),
    ShortFields fields → rereadFields fields = fields
  | _, .nil, _ => rfl
  | _, .snoc init key v fresh, h => by
    rw [rereadFields, reread_eq_self v h.2, rereadFields_eq_self init h.1]

end

open Token

variable {rest : List Char}

theorem ofWord?_null : ofWord? (scalarText .null).toList = some .null := by decide

theorem ofWord?_bool : ∀ b, ofWord? (scalarText (.bool b)).toList = some (.bool b) := by decide

theorem fieldTokens_of_isEmpty {keys : List String} (fields : Entries Json keys)
    (h : keys.isEmpty) : fieldTokens fields = [] := by
  cases fields with
  | nil => rfl
  | snoc => cases h

/-- A comma, which stands before each item or field but the first. -/
theorem scans_comma (first : Bool) :
    Scans (if first then "" else ",").toList (if first then [] else [.comma]) rest := by
  cases first
  · exact scans_punctuation rfl
  · exact .nil

/-- The colon behind a key. -/
theorem scans_colon : Scans ": ".toList [.colon] rest :=
  (scans_punctuation (c := ':') rfl).append_blank (scans_blank (.inl rfl))

theorem delimited_newline (level : Nat) (cs : List Char) :
    Delimited ((newline level).toList ++ cs) := by
  rw [newline, String.toList_ofList]
  exact delimited_cons (by decide)

theorem delimited_comma (first : Bool) (level : Nat) (cs : List Char) :
    Delimited ((if first then "" else ",").toList ++ ((newline level).toList ++ cs)) := by
  cases first
  · exact delimited_cons (c := ',') (by decide)
  · exact delimited_newline level cs

theorem delimited_indentedItems (level : Nat) (items : List Json) (hrest : Delimited rest) :
    Delimited ((indentedItems level false items).toList ++ rest) := by
  cases items with
  | nil => exact hrest
  | cons v items =>
    simp only [indentedItems, String.toList_append, List.append_assoc]
    exact delimited_comma false level _

mutual

/-- Indented JSON is cut into the tokens of its value, with the doubles that are read back. -/
theorem scans_indented : ∀ (level : Nat) (v : Json) {rest : List Char}, v.Proper →
    Delimited rest → Scans (indented level v).toList v.reread.tokens rest
  | _, .null, _, _, hrest => scans_word ofWord?_null hrest
  | _, .bool b, _, _, hrest => scans_word (ofWord?_bool b) hrest
  | _, .integer n, _, _, hrest => scans_word (ofWord?_integer n) hrest
  | _, .largeInteger _, _, h, hrest => scans_word (ofWord?_largeInteger h) hrest
  | _, .double _, _, h, hrest => scans_word (ofWord?_double h) hrest
  | _, .string s, _, _, _ => scans_quote s
  | level, .array items, rest, h, _ => by
    rw [indented, reread, tokens]
    split
    · rename_i hempty
      rw [List.isEmpty_iff.1 hempty]
      exact (scans_punctuation rfl).append (scans_punctuation rfl)
    · simp only [String.toList_append]
      exact (((scans_punctuation rfl).append (scans_indentedItems (level + 1) true items h
        (delimited_newline level _))).append_blank (scans_newline level)).append
          (scans_punctuation rfl)
  | level, .object fields, rest, h, _ => by
    rw [indented, reread, tokens]
    split
    · rename_i hempty
      rw [fieldTokens_of_isEmpty (rereadFields fields.entries) hempty, scalarText]
      exact (scans_punctuation rfl).append (scans_punctuation (c := '\x7d') rfl)
    · simp only [String.toList_append]
      exact (((scans_punctuation rfl).append (scans_indentedFields (level + 1) fields.entries h
        (delimited_newline level _))).append_blank (scans_newline level)).append
          (scans_punctuation rfl)

/-- So are the items of an array. -/
theorem scans_indentedItems : ∀ (level : Nat) (first : Bool) (items : List Json)
    {rest : List Char}, ProperItems items → Delimited rest →
      Scans (indentedItems level first items).toList (itemTokens first (rereadItems items)) rest
  | _, _, [], _, _, _ => .nil
  | level, first, v :: items, rest, h, hrest => by
    simp only [indentedItems, rereadItems, itemTokens, String.toList_append]
    exact (((scans_comma first).append_blank (scans_newline level)).append
      (scans_indented level v h.1 (delimited_indentedItems level items hrest))).append
        (scans_indentedItems level false items h.2 hrest)

/-- And the fields of an object. -/
theorem scans_indentedFields : ∀ (level : Nat) {keys : List String} (fields : Entries Json keys)
    {rest : List Char}, ProperFields fields → Delimited rest →
      Scans (indentedFields level fields).toList (fieldTokens (rereadFields fields)) rest
  | _, _, .nil, _, _, _ => .nil
  | level, _, @Entries.snoc _ before init key v _, rest, h, hrest => by
    simp only [indentedFields, rereadFields, fieldTokens, String.toList_append]
    exact (((((scans_indentedFields level init h.1 (delimited_comma before.isEmpty level _)).append
      (scans_comma before.isEmpty)).append_blank (scans_newline level)).append
        (scans_quote key)).append scans_colon).append (scans_indented level v h.2 hrest)

end

/-- **Indented JSON has the tokens of its value, with the doubles that are read back.** -/
theorem scan_pretty {v : Json} (h : v.Proper) : scan v.pretty = some v.reread.tokens := by
  have hscans := scans_indented 0 v h delimited_nil
  unfold Scans at hscans
  rw [List.append_nil] at hscans
  rw [scan, pretty, hscans, scanFrom, finish?, Option.map_some, List.append_nil]

end Bson.Json

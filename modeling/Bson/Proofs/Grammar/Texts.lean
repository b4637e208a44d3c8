import Bson.Key
import Bson.Proofs.Grammar.Basic

/-!
# Texts without a zero byte

No byte of a character is zero but that of NUL, so a text holds a zero byte exactly if it holds a
NUL.

* `utf8EncodeChar_cases`, `utf8_eq`: the bytes of a character and of a text.
* `nulFree_iff`: the two ways to say it.
* `nulFree_of_check`, `nulFree_of_isDigit`, `nulFree_toOptions`: keys that pass the rule for keys,
  texts of digits and the options of regular expressions hold none.
-/

namespace Bson.Grammar

/-- A character of the first 128 is a byte of its own; the bytes of any other have their high bit
set. -/
theorem utf8EncodeChar_cases (c : Char) :
    (c.toNat < 128 ∧ String.utf8EncodeChar c = [UInt8.ofNat c.toNat]) ∨
      (128 ≤ c.toNat ∧ ∀ b ∈ String.utf8EncodeChar c, 128 ≤ b.toNat) := by
  have hhigh : ∀ n m : Nat, 128 ≤ m → n + m < 256 → 128 ≤ (UInt8.ofNat (n + m)).toNat := by
    intro n m hm hn
    rw [UInt8.toNat_ofNat_of_lt' hn]
    omega
  have hvalue : c.toNat = c.val.toNat := rfl
  rw [String.utf8EncodeChar, hvalue]
  generalize c.val.toNat = v
  split
  · exact .inl ⟨by omega, rfl⟩
  · refine .inr ⟨by omega, ?_⟩
    split
    · simp only [List.forall_mem_cons, List.not_mem_nil, false_implies, implies_true, and_true]
      exact ⟨hhigh _ _ (by decide) (by omega), hhigh _ _ (by decide) (by omega)⟩
    · split
      · simp only [List.forall_mem_cons, List.not_mem_nil, false_implies, implies_true, and_true]
        exact ⟨hhigh _ _ (by decide) (by omega), hhigh _ _ (by decide) (by omega),
          hhigh _ _ (by decide) (by omega)⟩
      · simp only [List.forall_mem_cons, List.not_mem_nil, false_implies, implies_true, and_true]
        exact ⟨hhigh _ _ (by decide) (by omega), hhigh _ _ (by decide) (by omega),
          hhigh _ _ (by decide) (by omega), hhigh _ _ (by decide) (by omega)⟩

theorem zero_mem_utf8EncodeChar {c : Char} : 0 ∈ String.utf8EncodeChar c ↔ c = '\x00' := by
  rcases utf8EncodeChar_cases c with ⟨hlt, hsingle⟩ | ⟨hle, hhigh⟩
  · have hzero : (UInt8.ofNat c.toNat).toNat = c.toNat :=
      UInt8.toNat_ofNat_of_lt' (Nat.lt_trans hlt (by decide))
    rw [hsingle, List.mem_singleton, ← UInt8.toNat_inj, hzero, eq_comm, ← Char.toNat_inj]
    rfl
  · refine iff_of_false (fun h => absurd (hhigh 0 h) (by decide)) ?_
    rintro rfl
    exact absurd hle (by decide)

/-- The bytes of a text are those of its characters. -/
theorem utf8_eq (s : String) : utf8 s = s.toList.flatMap String.utf8EncodeChar := by
  have h : ∀ cs : List Char, cs.utf8Encode.data.toList = cs.flatMap String.utf8EncodeChar := by
    intro cs
    simp [List.utf8Encode]
  rw [← h, String.utf8Encode_toList]
  rfl

/-- A text holds a zero byte exactly if it holds a NUL. -/
theorem nulFree_iff {s : String} : NulFree s ↔ '\x00' ∉ s.toList := by
  simp only [NulFree, utf8_eq, List.mem_flatMap, zero_mem_utf8EncodeChar, exists_eq_right]

theorem nulFree_of_check {key : String} (h : Key.check key = .ok ()) : NulFree key := by
  rw [nulFree_iff]
  intro hnul
  have hfault : Key.fault? key = some .containsNul :=
    if_pos (List.contains_iff_mem.2 hnul)
  rw [Key.check, hfault] at h
  cases h

theorem nulFree_of_isDigit {s : String} (h : ∀ c ∈ s.toList, c.isDigit) : NulFree s := by
  rw [nulFree_iff]
  intro hnul
  exact absurd (h _ hnul) (by decide)

theorem nulFree_toString (n : Nat) : NulFree (toString n) := by
  apply nulFree_of_isDigit
  rw [Nat.toString_eq_ofList_toDigits, String.toList_ofList]
  exact fun c hc => Nat.isDigit_of_mem_toDigits (b := 10) (by decide) (by decide) hc

theorem nulFree_toOptions (flags : RegexFlags) : NulFree flags.toOptions := by
  obtain ⟨g, i, m⟩ := flags
  rw [nulFree_iff]
  cases g <;> cases i <;> cases m <;> decide

/-- The options of a regular expression name its flags. -/
theorem ofOptions_toOptions (flags : RegexFlags) : .ofOptions flags.toOptions = flags := by
  obtain ⟨g, i, m⟩ := flags
  cases g <;> cases i <;> cases m <;> decide

end Bson.Grammar

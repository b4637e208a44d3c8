import Bson.Text.Scan

/-!
# What scanners read

A scanner is described by the characters that it takes and the value that it gives for them. The
rules put such statements together along the steps of a scanner, so that the characters of a whole
come out as those of its parts.

* `Scan.Reads`: a scanner reads given characters in front of others as a value.
* `Reads.bind`, `Reads.char_bind` and their like: one for each way to go on.
* `run?_eq`: a text whose characters are all read is read as their value.
-/

namespace Bson

namespace Text.Scan

variable {α β : Type} {rest : List Char}

/-- A scanner reads the characters `cs` in front of `rest` as the value `a`. -/
def Reads (p : Scan α) (cs : List Char) (a : α) (rest : List Char) : Prop :=
  p (cs ++ rest) = some (a, rest)

theorem Reads.bind {p : Scan α} {f : α → Scan β} {cs ds : List Char} {a : α} {b : β}
    (hp : Reads p cs a (ds ++ rest)) (hf : Reads (f a) ds b rest) :
    Reads (p >>= f) (cs ++ ds) b rest := by
  change (p (cs ++ ds ++ rest)).bind (fun q => f q.1 q.2) = _
  rw [List.append_assoc, hp]
  exact hf

/-- What comes after a scanner may read nothing. -/
theorem Reads.bind_nil {p : Scan α} {f : α → Scan β} {cs : List Char} {a : α} {b : β}
    (hp : Reads p cs a rest) (hf : Reads (f a) [] b rest) : Reads (p >>= f) cs b rest := by
  rw [← List.append_nil cs]
  exact Reads.bind hp hf

theorem reads_pure (a : α) : Reads (pure a) [] a rest := rfl

theorem reads_satisfy {p : Char → Bool} {c : Char} (h : p c = true) :
    Reads (satisfy p) [c] c rest :=
  if_pos h

/-- A character that passes a test, and what comes after it. -/
theorem Reads.satisfy_bind {p : Char → Bool} {f : Char → Scan β} {c : Char} {ds : List Char}
    {b : β} (h : p c = true) (hf : Reads (f c) ds b rest) :
    Reads (satisfy p >>= f) (c :: ds) b rest :=
  (reads_satisfy h).bind hf

theorem reads_char (c : Char) : Reads (char c) [c] () rest :=
  .satisfy_bind (decide_eq_true rfl) (reads_pure ())

/-- A given character, and what comes after it. -/
theorem Reads.char_bind {c : Char} {f : Unit → Scan β} {ds : List Char} {b : β}
    (hf : Reads (f ()) ds b rest) : Reads (char c >>= f) (c :: ds) b rest :=
  (reads_char c).bind hf

/-- Looking ahead reads nothing. -/
theorem Reads.peek?_bind {f : Option Char → Scan β} {ds : List Char} {b : β}
    (hf : Reads (f (ds ++ rest).head?) ds b rest) : Reads (peek? >>= f) ds b rest :=
  hf

theorem reads_count {p : Char → Bool} {cs : List Char} (h : ∀ c ∈ cs, p c = true) :
    Reads (count cs.length p) cs cs rest := by
  induction cs with
  | nil => exact reads_pure []
  | cons c cs ih =>
    rw [count, List.length_cons, List.replicate_succ, List.mapM_cons]
    exact .satisfy_bind (h c List.mem_cons_self)
      ((ih fun d hd => h d (List.mem_cons_of_mem c hd)).bind_nil (reads_pure _))

theorem reads_takeWhile1 {p : Char → Bool} {cs : List Char} {c : Char} (hne : cs ≠ [])
    (h : ∀ d ∈ cs, p d = true) (hc : p c = false) :
    Reads (takeWhile1 p) cs cs (c :: rest) := by
  have htake : Reads (takeWhile p) cs cs (c :: rest) := by
    unfold Reads takeWhile
    rw [List.takeWhile_append_of_pos h, List.dropWhile_append_of_pos h,
      List.takeWhile_cons_of_neg (Bool.eq_false_iff.1 hc),
      List.dropWhile_cons_of_neg (Bool.eq_false_iff.1 hc), List.append_nil]
  refine htake.bind_nil ?_
  rw [List.isEmpty_eq_false_iff.2 hne]
  exact reads_pure cs

theorem run?_eq {p : Scan α} {s : String} {a : α} (h : Reads p s.toList a []) :
    run? p s = some a := by
  unfold Reads at h
  rw [List.append_nil] at h
  rw [run?, h]

end Text.Scan

end Bson

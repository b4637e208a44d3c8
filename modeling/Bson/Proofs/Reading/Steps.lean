import Bson.Frame

/-!
# Steps of a cursor

Ways to say what steps of a cursor do, and how each follows the way in which the steps are put
together.

* `Cursor.bind_eq_ok` and the lemmas after it open a run that succeeds.
* `Cursor.bind_of_ok` and `Cursor.bind_of_error` go one step along a run.
* `Cursor.Ends m pos Q`: from `pos` the steps `m` end with a result and an offset of which `Q`
  holds, or with an error other than `Error.reader`. The rules `Ends.bind`, `Ends.pure`, … build
  such a statement along the steps.
-/

namespace Bson.Cursor

variable {α β : Type} {pos stop : Nat}

/-! ### Runs that succeed -/

@[simp] theorem bind_eq_ok {m : Cursor α} {f : α → Cursor β} {b : β} :
    (m >>= f) pos = .ok (b, stop) ↔
      ∃ a mid, m pos = .ok (a, mid) ∧ f a mid = .ok (b, stop) := by
  change Except.bind (m pos) (fun p => f p.1 p.2) = _ ↔ _
  cases m pos with
  | error e => simp [Except.bind]
  | ok p =>
    obtain ⟨a, mid⟩ := p
    simp [Except.bind, and_assoc]

@[simp] theorem pure_eq_ok {a b : α} :
    (pure a : Cursor α) pos = .ok (b, stop) ↔ b = a ∧ stop = pos := by
  change Except.ok (a, pos) = _ ↔ _
  simp [eq_comm]

@[simp] theorem throw_eq_ok {e : Error} {b : α} :
    (throw e : Cursor α) pos = .ok (b, stop) ↔ False := by
  change Except.error e = _ ↔ _
  simp

@[simp] theorem lift_eq_ok {x : Except Error α} {a : α} :
    (liftM x : Cursor α) pos = .ok (a, stop) ↔ x = .ok a ∧ stop = pos := by
  change Except.bind x (fun a => .ok (a, pos)) = _ ↔ _
  cases x <;> simp [Except.bind, eq_comm]

@[simp] theorem lift_bind_eq_ok {x : Except Error α} {f : α → Cursor β} {b : β} :
    (liftM x >>= f) pos = .ok (b, stop) ↔ ∃ a, x = .ok a ∧ f a pos = .ok (b, stop) := by
  simp [and_assoc]

@[simp] theorem set_bind_eq_ok {n : Nat} {f : PUnit → Cursor β} {b : β} :
    (set n >>= f) pos = .ok (b, stop) ↔ f ⟨⟩ n = .ok (b, stop) := Iff.rfl

@[simp] theorem set_eq_ok {n : Nat} {u : PUnit} :
    (set n : Cursor PUnit) pos = .ok (u, stop) ↔ stop = n := by
  change Except.ok (PUnit.unit, n) = _ ↔ _
  simp [eq_comm]

/-- A refusal that is not met lets the steps after it go on. -/
@[simp] theorem guard_eq_ok {c : Prop} [Decidable c] {e : Error} {f : PUnit → Cursor β} {b : β} :
    (if c then (throw e : Cursor PUnit) >>= f else f ⟨⟩) pos = .ok (b, stop) ↔
      ¬c ∧ f ⟨⟩ pos = .ok (b, stop) := by
  split <;> simp [*]

/-! ### Runs step by step -/

theorem bind_of_ok {m : Cursor α} {f : α → Cursor β} {a : α} {mid : Nat}
    (h : m pos = .ok (a, mid)) : (m >>= f) pos = f a mid := by
  change Except.bind (m pos) _ = _
  rw [h]
  rfl

theorem bind_of_error {m : Cursor α} {f : α → Cursor β} {e : Error} (h : m pos = .error e) :
    (m >>= f) pos = .error e := by
  change Except.bind (m pos) _ = _
  rw [h]
  rfl

theorem lift_bind_of_ok {x : Except Error α} {f : α → Cursor β} {a : α} (h : x = .ok a) :
    (liftM x >>= f) pos = f a pos := by
  rw [h]
  rfl

/-- A refusal that is not met lets the steps after it go on, and one that is met ends them. -/
theorem guard_of_not {c : Prop} [Decidable c] {e : Error} {f : PUnit → Cursor β} (h : ¬c) :
    (if c then (throw e : Cursor PUnit) >>= f else f ⟨⟩) pos = f ⟨⟩ pos := by
  rw [if_neg h]

theorem guard_of {c : Prop} [Decidable c] {e : Error} {f : PUnit → Cursor β} (h : c) :
    (if c then (throw e : Cursor PUnit) >>= f else f ⟨⟩) pos = .error e := by
  rw [if_pos h]
  rfl

/-! ### Runs without faults -/

/-- From an offset, steps end as `Q` says, or with an error that is no fault of the reader. -/
def Ends (m : Cursor α) (pos : Nat) (Q : α → Nat → Prop) : Prop :=
  (∀ fault, m pos ≠ .error (.reader fault)) ∧ ∀ a stop, m pos = .ok (a, stop) → Q a stop

namespace Ends

variable {m : Cursor α} {f : α → Cursor β} {Q Q' : α → Nat → Prop} {R : β → Nat → Prop}

theorem mono (h : Ends m pos Q) (hQ : ∀ a stop, Q a stop → Q' a stop) : Ends m pos Q' :=
  ⟨h.1, fun a stop ha => hQ a stop (h.2 a stop ha)⟩

theorem bind (h : Ends m pos Q) (hf : ∀ a mid, Q a mid → Ends (f a) mid R) :
    Ends (m >>= f) pos R := by
  refine ⟨fun fault hb => ?_, fun b stop hb => ?_⟩
  · change Except.bind (m pos) (fun p => f p.1 p.2) = _ at hb
    cases hm : m pos with
    | error e =>
      rw [hm] at hb
      cases hb
      exact h.1 fault hm
    | ok p =>
      rw [hm] at hb
      exact (hf p.1 p.2 (h.2 _ _ hm)).1 fault hb
  · obtain ⟨a, mid, ha, hb⟩ := bind_eq_ok.1 hb
    exact (hf a mid (h.2 a mid ha)).2 b stop hb

theorem pure {a : α} (h : Q a pos) : Ends (pure a) pos Q := by
  refine ⟨fun fault he => (nomatch he), fun b stop hb => ?_⟩
  obtain ⟨rfl, rfl⟩ := pure_eq_ok.1 hb
  exact h

theorem throw {e : Error} (h : ∀ fault, e ≠ .reader fault) : Ends (throw e) pos Q := by
  refine ⟨fun fault he => ?_, fun b stop hb => (throw_eq_ok.1 hb).elim⟩
  cases he
  exact h fault rfl

theorem lift {x : Except Error α} (h : ∀ fault, x ≠ .error (.reader fault))
    (hQ : ∀ a, x = .ok a → Q a pos) : Ends (liftM x) pos Q := by
  refine ⟨fun fault he => ?_, fun a stop ha => ?_⟩
  · change Except.bind x (fun a => .ok (a, pos)) = _ at he
    cases x with
    | error e => cases he; exact h fault rfl
    | ok a => cases he
  · obtain ⟨hx, rfl⟩ := lift_eq_ok.1 ha
    exact hQ a hx

/-- A check that is passed gives its result to the steps after it. -/
theorem lift_bind {x : Except Error α} {a : α} (hx : x = .ok a) (hf : Ends (f a) pos R) :
    Ends (liftM x >>= f) pos R := by
  subst hx
  exact hf

/-- A refusal that is no fault of the reader lets the steps after it assume that it was not met. -/
theorem guard {c : Prop} [Decidable c] {e : Error} {f : PUnit → Cursor β}
    (he : ∀ fault, e ≠ .reader fault) (hf : ¬c → Ends (f ⟨⟩) pos R) :
    Ends (if c then (MonadExcept.throw e : Cursor PUnit) >>= f else f ⟨⟩) pos R := by
  split
  · exact (throw (Q := fun _ _ => False) he).bind nofun
  · exact hf ‹_›

theorem set {n : Nat} {Q : PUnit → Nat → Prop} (h : Q ⟨⟩ n) :
    Ends (set n : Cursor PUnit) pos Q := by
  refine ⟨fun fault he => (nomatch he), fun u stop hu => ?_⟩
  obtain rfl := set_eq_ok.1 hu
  exact h

end Ends

end Bson.Cursor

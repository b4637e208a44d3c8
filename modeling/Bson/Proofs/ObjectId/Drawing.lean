import Bson.ObjectId.Process
import Mathlib.Data.List.Nodup

/-!
# Ids of one process do not collide

An id shows the low 24 bits of a counter that is stepped for every id. However the calls of a
process interleave and whatever their clocks show, ids less than `2 ^ 24` places apart in the order
of the counter are different.

* `Generator.counter_draw`, `Generator.processBytes_draw`: what the ids of a generator show, also
  where its counter wraps.
* `Process.Sound`: what holds of a process at any point of a schedule. Its ids are those that one
  generator draws.
* `Process.Transition`: what one step of a call can do. `Process.Transition.sound`: it keeps what
  holds. `Process.Sound.run`: so does a schedule.
* `Process.steps_run`: a call that has taken four steps has returned.
* `drawn_ids_distinct`: the statement about processes.
-/

namespace Bson.ObjectId

/-! ### What an id shows -/

theorem bigEndian_three (n : Nat) (h : n < 2 ^ 24) :
    bigEndian ([n / 2 ^ 16, n / 2 ^ 8, n].map UInt8.ofNat) = n := by
  change ((0 * 256 + n / 65536 % 256) * 256 + n / 256 % 256) * 256 + n % 256 = n
  change n < 16777216 at h
  omega

namespace Generator

variable (g : Generator) (t : UInt32) (times : List UInt32)

theorem toList_bytes :
    (g.bytes t).toList =
      [t.toNat / 2 ^ 24, t.toNat / 2 ^ 16, t.toNat / 2 ^ 8, t.toNat].map UInt8.ofNat ++
        g.process.toList ++ [g.counter.toNat % 2 ^ 24 / 2 ^ 16, g.counter.toNat % 2 ^ 24 / 2 ^ 8,
          g.counter.toNat % 2 ^ 24].map UInt8.ofNat := by
  rw [bytes, Vector.toList, Vector.toArray_cast, Vector.toArray_append, Array.toList_append,
    Vector.toArray_append, Array.toList_append, Vector.toArray_map, Array.toList_map,
    Vector.toArray_map, Array.toList_map]
  rfl

theorem counter_next : (g.next t).1.counter = g.counter.toNat % 2 ^ 24 := by
  have hbytes : (g.next t).1.bytes.data.toList = (g.bytes t).toList := rfl
  have hlength : ([t.toNat / 2 ^ 24, t.toNat / 2 ^ 16, t.toNat / 2 ^ 8, t.toNat].map UInt8.ofNat ++
      g.process.toList).length = 9 := by
    rw [List.length_append, Vector.length_toList]
    rfl
  rw [ObjectId.counter, hbytes, toList_bytes, List.drop_left' hlength]
  exact bigEndian_three _ (Nat.mod_lt _ (Nat.two_pow_pos 24))

theorem processBytes_next : (g.next t).1.processBytes = g.process.toList := by
  have hbytes : (g.next t).1.bytes.data.toList = (g.bytes t).toList := rfl
  have hlength :
      ([t.toNat / 2 ^ 24, t.toNat / 2 ^ 16, t.toNat / 2 ^ 8, t.toNat].map UInt8.ofNat).length = 4 :=
    rfl
  rw [processBytes, hbytes, toList_bytes, List.append_assoc, List.drop_left' hlength,
    List.take_left' g.process.length_toList]

/-- The generator after it has drawn at the given times. -/
def after : Generator := times.foldl (fun g t => (g.next t).2) g

theorem process_after : (g.after times).process = g.process := by
  induction times generalizing g with
  | nil => rfl
  | cons t rest ih => exact ih (g.next t).2

theorem draw_concat : g.draw (times ++ [t]) = g.draw times ++ [((g.after times).next t).1] := by
  induction times generalizing g with
  | nil => rfl
  | cons s rest ih => exact congrArg ((g.next s).1 :: ·) (ih (g.next s).2)

theorem after_concat : g.after (times ++ [t]) = ((g.after times).next t).2 :=
  List.foldl_append

/-- The ids of a generator count on from its counter, also where the counter wraps. -/
theorem counter_draw {i : Nat} (h : i < (g.draw times).length) :
    (g.draw times)[i].counter = (g.counter.toNat + i) % 2 ^ 24 := by
  induction times generalizing g i with
  | nil => exact absurd h (Nat.not_lt_zero i)
  | cons t rest ih =>
    cases i with
    | zero => exact g.counter_next t
    | succ i =>
      have hwrap : (g.counter + 1).toNat = (g.counter.toNat + 1) % 2 ^ 32 := UInt32.toNat_add ..
      refine (ih (g.next t).2 (Nat.lt_of_succ_lt_succ h)).trans ?_
      change ((g.counter + 1).toNat + i) % 2 ^ 24 = (g.counter.toNat + (i + 1)) % 2 ^ 24
      omega

theorem processBytes_draw : ∀ id ∈ g.draw times, id.processBytes = g.process.toList := by
  induction times generalizing g with
  | nil => exact fun id h => absurd h List.not_mem_nil
  | cons t rest ih =>
    intro id h
    obtain rfl | h := List.mem_cons.1 h
    · exact g.processBytes_next t
    · exact ih (g.next t).2 id h

/-- Ids of a generator are told apart by their counters, up to `2 ^ 24` of them in a row. -/
theorem draw_getElem_ne {i j : Nat} (hi : i < (g.draw times).length)
    (hj : j < (g.draw times).length) (hij : i < j) (hnear : j - i < 2 ^ 24) :
    (g.draw times)[i] ≠ (g.draw times)[j] := by
  intro heq
  have hcounter : (g.counter.toNat + i) % 2 ^ 24 = (g.counter.toNat + j) % 2 ^ 24 := by
    rw [← g.counter_draw times hi, ← g.counter_draw times hj, heq]
  omega

end Generator

/-! ### What holds at any point of a schedule -/

/-- How many steps a call has taken. -/
def Call.steps : Call → Nat
  | .begun => 0
  | .timed _ => 1
  | .marked _ _ => 2
  | .counting _ _ => 3
  | .returned _ => 4

/-- The bytes that a call has fetched and not yet put into an id. -/
def Call.fetched? : Call → Option (Vector UInt8 5)
  | .marked _ bytes | .counting _ bytes => some bytes
  | .begun | .timed _ | .returned _ => none

theorem Call.steps_eq_four {c : Call} : c.steps = 4 ↔ ∃ id, c = .returned id := by
  cases c <;> simp [Call.steps]

theorem Call.steps_le (c : Call) : c.steps ≤ 4 := by
  cases c <;> simp [Call.steps]

namespace Process

variable {p q : Process} {call : Nat} {schedule : List (Nat × Surroundings)}

/-- What holds of the stage that a call is taken to, and of all other calls, holds of every call. -/
theorem forall_calls_move {stage : Call} {P : Nat → Call → Prop} (hcall : P call stage)
    (hother : ∀ k, k ≠ call → P k (p.calls k)) (k : Nat) : P k ((p.move call stage).calls k) := by
  change P k (if k = call then stage else p.calls k)
  by_cases hk : k = call
  · rwa [if_pos hk, hk]
  · rw [if_neg hk]
    exact hother k hk

/-- What holds of a process at any point of a schedule. -/
structure Sound (p : Process) : Prop where
  /-- Calls have fetched the bytes that were settled. -/
  fetched : ∀ k, ∀ bytes ∈ (p.calls k).fetched?, p.bytes? = some bytes
  /-- A call about to step the counter finds it. -/
  ready : ∀ k, (p.calls k).steps = 3 → p.counter? ≠ none
  /-- The ids are those that one generator draws, and the counter is where it left off. -/
  generated : p.drawn = [] ∨ ∃ (g : Generator) (times : List UInt32),
    p.bytes? = some g.process ∧ p.counter? = some (g.after times).counter ∧ p.ids = g.draw times
  /-- A call returns the id for which it has stepped the counter. -/
  returned : ∀ k id, p.calls k = .returned id ↔ (k, id) ∈ p.drawn
  /-- A call steps the counter once. -/
  nodup : (p.drawn.map Prod.fst).Nodup

theorem Sound.idle (bytes? : Option (Vector UInt8 5)) (counter? : Option UInt32) :
    (idle bytes? counter?).Sound where
  fetched _ _ := nofun
  ready _ := nofun
  generated := .inl rfl
  returned _ _ := iff_of_false nofun List.not_mem_nil
  nodup := List.nodup_nil

/-- What one step of a call can do: nothing once it has returned, or fetch and perhaps settle what
the calls share, or step the counter and return. -/
inductive Transition (p : Process) (call : Nat) : Process → Prop
  | rest (hreturned : (p.calls call).steps = 4) : Transition p call p
  | fetch (stage : Call) (bytes? : Option (Vector UInt8 5)) (counter? : Option UInt32)
      (hbytes : ∀ bytes ∈ p.bytes?, bytes? = some bytes)
      (hcounter : ∀ counter ∈ p.counter?, counter? = some counter)
      (hstage : stage.steps = (p.calls call).steps + 1) (hstays : stage.steps ≠ 4)
      (hfetched : ∀ bytes ∈ stage.fetched?, bytes? = some bytes)
      (hready : stage.steps = 3 → counter? ≠ none) :
      Transition p call { p.move call stage with bytes? := bytes?, counter? := counter? }
  | draw (g : Generator) (t : UInt32) (hcall : p.calls call = .counting t g.process)
      (hbytes : p.bytes? = some g.process) (hcounter : p.counter? = some g.counter) :
      Transition p call { p.move call (.returned (g.next t).1) with
        counter? := some (g.next t).2.counter, drawn := p.drawn ++ [(call, (g.next t).1)] }

theorem Sound.transition (h : p.Sound) (call : Nat) (s : Surroundings) :
    p.Transition call (p.step call s) := by
  have hfetched := h.fetched call
  have hready := h.ready call
  rw [step]
  cases hcall : p.calls call with
  | begun =>
    exact .fetch _ p.bytes? p.counter? (fun _ => id) (fun _ => id) (by rw [hcall]; rfl) nofun
      nofun nofun
  | timed t =>
    exact .fetch _ (some (p.bytes?.getD s.bytes)) p.counter?
      (fun bytes hbytes => by rw [hbytes]; rfl) (fun _ => id) (by rw [hcall]; rfl) nofun
      (fun bytes hbytes => hbytes) nofun
  | marked t bytes =>
    rw [hcall] at hfetched
    exact .fetch _ p.bytes? (some (p.counter?.getD _)) (fun _ => id)
      (fun counter hcounter => by rw [hcounter]; rfl) (by rw [hcall]; rfl) nofun hfetched
      (fun _ => Option.some_ne_none _)
  | counting t bytes =>
    rw [hcall] at hfetched hready
    obtain ⟨counter, hcounter⟩ := Option.ne_none_iff_exists'.1 (hready rfl)
    rw [hcounter]
    exact .draw ⟨bytes, counter⟩ t hcall (hfetched bytes rfl) hcounter
  | returned id => exact .rest (by rw [hcall]; rfl)

theorem Sound.not_mem_drawn (h : p.Sound) (hcall : (p.calls call).steps ≠ 4) (id : ObjectId) :
    (call, id) ∉ p.drawn :=
  fun hdrawn => hcall (Call.steps_eq_four.2 ⟨id, (h.returned call id).2 hdrawn⟩)

/-- A step of one call leaves the other calls where they are. -/
theorem Transition.calls_of_ne (ht : p.Transition call q) {k : Nat} (hk : k ≠ call) :
    q.calls k = p.calls k := by
  cases ht with
  | rest => rfl
  | fetch => exact if_neg hk
  | draw => exact if_neg hk

theorem Transition.steps_self (ht : p.Transition call q) :
    (q.calls call).steps = min 4 ((p.calls call).steps + 1) := by
  cases ht with
  | rest hreturned => rw [hreturned]; rfl
  | fetch stage bytes? counter? hbytes hcounter hstage hstays hfetched hready =>
    have hself : (p.move call stage).calls call = stage := if_pos rfl
    have hle := stage.steps_le
    change ((p.move call stage).calls call).steps = _
    rw [hself]
    omega
  | draw g t hcall hbytes hcounter =>
    have hself : (p.move call (.returned (g.next t).1)).calls call = .returned (g.next t).1 :=
      if_pos rfl
    change ((p.move call _).calls call).steps = _
    rw [hself, hcall]
    rfl

/-- Bytes that were settled stay. -/
theorem Transition.bytes? (ht : p.Transition call q) {bytes : Vector UInt8 5}
    (h : p.bytes? = some bytes) : q.bytes? = some bytes := by
  cases ht with
  | rest => exact h
  | fetch stage bytes? counter? hbytes => exact hbytes bytes h
  | draw => exact h

/-- The ids were drawn by a generator that has come to where a call finds it. -/
theorem Sound.exists_after (h : p.Sound) {g : Generator} (hbytes : p.bytes? = some g.process)
    (hcounter : p.counter? = some g.counter) :
    ∃ (start : Generator) (times : List UInt32),
      start.after times = g ∧ p.ids = start.draw times := by
  obtain hnil | ⟨start, times, hprocess, hafter, hids⟩ := h.generated
  · refine ⟨g, [], rfl, ?_⟩
    rw [ids, hnil]
    rfl
  · refine ⟨start, times, ?_, hids⟩
    have hsame : (start.after times).process = g.process :=
      (start.process_after times).trans (Option.some.inj (hprocess.symm.trans hbytes))
    have hcount : (start.after times).counter = g.counter :=
      Option.some.inj (hafter.symm.trans hcounter)
    calc start.after times = ⟨(start.after times).process, (start.after times).counter⟩ := rfl
      _ = ⟨g.process, g.counter⟩ := by rw [hsame, hcount]

theorem Sound.exists_generator (h : p.Sound) :
    ∃ (g : Generator) (times : List UInt32),
      (∀ bytes ∈ p.bytes?, bytes = g.process) ∧ p.ids = g.draw times := by
  obtain hnil | ⟨g, times, hprocess, -, hids⟩ := h.generated
  · -- any counter will do, as no id has been drawn
    refine ⟨⟨p.bytes?.getD (Vector.replicate 5 0), 0⟩, [], fun bytes hbytes => ?_, ?_⟩
    · exact (congrArg (Option.getD · _) hbytes).symm
    · rw [ids, hnil]
      rfl
  · exact ⟨g, times, fun bytes hbytes => Option.some.inj (hbytes.symm.trans hprocess), hids⟩

/-- One step keeps what holds of a process. -/
theorem Transition.sound (ht : p.Transition call q) (h : p.Sound) : q.Sound := by
  cases ht with
  | rest => exact h
  | fetch stage bytes? counter? hbytes hcounter hstage hstays hfetched hready =>
    refine ⟨?fetched, ?ready, ?generated, ?returned, h.nodup⟩
    case fetched =>
      exact forall_calls_move (P := fun _ c => ∀ bytes ∈ c.fetched?, bytes? = some bytes) hfetched
        fun k _ bytes hmem => hbytes bytes (h.fetched k bytes hmem)
    case ready =>
      refine forall_calls_move (P := fun _ c => c.steps = 3 → counter? ≠ none) hready
        fun k _ hsteps hnone => ?_
      obtain ⟨counter, hsome⟩ := Option.ne_none_iff_exists'.1 (h.ready k hsteps)
      exact Option.some_ne_none counter ((hcounter counter hsome).symm.trans hnone)
    case generated =>
      obtain hnil | ⟨g, times, hprocess, hafter, hids⟩ := h.generated
      · exact .inl hnil
      · exact .inr ⟨g, times, hbytes _ hprocess, hcounter _ hafter, hids⟩
    case returned =>
      refine forall_calls_move (P := fun k c => ∀ id, c = .returned id ↔ (k, id) ∈ p.drawn)
        (fun id => ?_) fun k _ => h.returned k
      have hle := stage.steps_le
      exact iff_of_false (fun heq => hstays (Call.steps_eq_four.2 ⟨id, heq⟩))
        (h.not_mem_drawn (by omega) id)
  | draw g t hcall hbytes hcounter =>
    have hfresh : ∀ id, (call, id) ∉ p.drawn := h.not_mem_drawn (by rw [hcall]; nofun)
    refine ⟨?fetched, fun k _ => Option.some_ne_none _, ?generated, ?returned, ?nodup⟩
    case fetched =>
      exact forall_calls_move (P := fun _ c => ∀ bytes ∈ c.fetched?, p.bytes? = some bytes)
        (fun _ => nofun) fun k _ => h.fetched k
    case generated =>
      obtain ⟨start, times, rfl, hids⟩ := h.exists_after hbytes hcounter
      refine .inr ⟨start, times ++ [t], ?_, ?_, ?_⟩
      · exact hbytes.trans (congrArg some (start.process_after times))
      · rw [Generator.after_concat]
      · change (p.drawn ++ [(call, ((start.after times).next t).1)]).map Prod.snd = _
        rw [List.map_append, Generator.draw_concat, ← hids]
        rfl
    case returned =>
      refine forall_calls_move (P := fun k c => ∀ id,
        c = .returned id ↔ (k, id) ∈ p.drawn ++ [(call, (g.next t).1)])
        (fun id => ?_) fun k hk id => ?_
      · rw [List.mem_append, List.mem_singleton, Call.returned.injEq, Prod.mk.injEq, eq_comm]
        exact ⟨fun heq => .inr ⟨rfl, heq⟩, fun hmem => (hmem.resolve_left (hfresh id)).2⟩
      · rw [List.mem_append, List.mem_singleton, h.returned]
        exact ⟨.inl, fun hmem => hmem.resolve_right fun heq => hk (Prod.mk.inj heq).1⟩
    case nodup =>
      have hcalls : call ∉ p.drawn.map Prod.fst := by
        intro hmem
        obtain ⟨⟨k, id⟩, hdrawn, rfl⟩ := List.mem_map.1 hmem
        exact hfresh id hdrawn
      rw [List.map_append, List.nodup_append_comm]
      exact List.nodup_cons.2 ⟨hcalls, h.nodup⟩

/-! ### Whole schedules -/

theorem Sound.run (h : p.Sound) : (p.run schedule).Sound := by
  induction schedule generalizing p with
  | nil => exact h
  | cons e rest ih => exact ih ((h.transition e.1 e.2).sound h)

theorem bytes?_run (h : p.Sound) {bytes : Vector UInt8 5} (hbytes : p.bytes? = some bytes) :
    (p.run schedule).bytes? = some bytes := by
  induction schedule generalizing p with
  | nil => exact hbytes
  | cons e rest ih =>
    have ht := h.transition e.1 e.2
    exact ih (ht.sound h) (ht.bytes? hbytes)

/-- A call gets as far as the schedule lets it, whatever the other calls do. -/
theorem steps_run (h : p.Sound) (k : Nat) :
    ((p.run schedule).calls k).steps =
      min 4 ((p.calls k).steps + (schedule.map Prod.fst).count k) := by
  induction schedule generalizing p with
  | nil => exact (Nat.min_eq_right (p.calls k).steps_le).symm
  | cons e rest ih =>
    have ht := h.transition e.1 e.2
    have hle := (p.calls k).steps_le
    change (((p.step e.1 e.2).run rest).calls k).steps = _
    rw [ih (ht.sound h), List.map_cons]
    obtain rfl | hk := eq_or_ne k e.1
    · rw [ht.steps_self, List.count_cons_self]
      omega
    · rw [ht.calls_of_ne hk, List.count_cons_of_ne hk.symm]

end Process

/-- However calls of one process interleave and whatever their clocks show, their ids do not
collide. Each call that has taken its steps has returned, with an id of its own among those drawn.
Ids less than `2 ^ 24` places apart in the order of the counter are different; all ids show the
bytes of the process, and their counters go up by one from each id to the next, modulo `2 ^ 24`. -/
theorem drawn_ids_distinct (bytes? : Option (Vector UInt8 5)) (counter? : Option UInt32)
    (schedule : List (Nat × Surroundings)) :
    let p := (Process.idle bytes? counter?).run schedule
    (∀ k id, p.calls k = .returned id ↔ (k, id) ∈ p.drawn) ∧ (p.drawn.map Prod.fst).Nodup ∧
      (∀ k, 4 ≤ (schedule.map Prod.fst).count k → ∃ id, p.calls k = .returned id) ∧
      (∀ i j (hi : i < p.ids.length) (hj : j < p.ids.length), i < j → j - i < 2 ^ 24 →
        p.ids[i] ≠ p.ids[j]) ∧
      (∃ shared : Vector UInt8 5, (∀ bytes ∈ bytes?, bytes = shared) ∧
        ∀ id ∈ p.ids, id.processBytes = shared.toList) ∧
      ∀ i (h : i + 1 < p.ids.length), p.ids[i + 1].counter = (p.ids[i].counter + 1) % 2 ^ 24 := by
  intro p
  have hidle := Process.Sound.idle bytes? counter?
  have hp : p.Sound := hidle.run
  obtain ⟨g, times, hprocess, hids⟩ := hp.exists_generator
  refine ⟨hp.returned, hp.nodup, fun k hk => ?_, ?_, ⟨g.process, fun bytes hbytes => ?_, ?_⟩, ?_⟩
  · have hsteps : (p.calls k).steps = min 4 (0 + (schedule.map Prod.fst).count k) :=
      Process.steps_run hidle k
    exact Call.steps_eq_four.1 (by omega)
  · rw [hids]
    exact fun i j hi hj => g.draw_getElem_ne times hi hj
  · exact hprocess bytes (Process.bytes?_run hidle hbytes)
  · rw [hids]
    exact g.processBytes_draw times
  · simp only [hids]
    intro i h
    rw [g.counter_draw, g.counter_draw, Nat.mod_add_mod, Nat.add_assoc]

/-- Two calls in a process. The second begins while the first is on its way and steps the counter
before it, although its clock shows a later time. -/
def twoCalls : List (Nat × Surroundings) :=
  let first : Surroundings := ⟨1700000000000000000, #v[1, 2, 3, 4, 5], 7⟩
  let second : Surroundings := ⟨1800000000000000000, #v[6, 7, 8, 9, 10], 8⟩
  [(0, first), (1, second), (1, second), (0, first), (1, second), (0, first), (1, second),
    (0, first)]

theorem drawn_ids_distinct_wrapping :
    let p := (Process.idle none (some 0xffffffff)).run twoCalls
    p.drawn.map (fun e => (e.1, e.2.toHex)) =
        [(1, "6b49d200060708090affffff"), (0, "6553f100060708090a000000")] ∧
      (∃ id, p.calls 0 = .returned id) ∧ ∃ h : 1 < p.ids.length, p.ids[0] ≠ p.ids[1] := by
  have h := drawn_ids_distinct none (some 0xffffffff) twoCalls
  have hsecond : 1 < ((Process.idle none (some 0xffffffff)).run twoCalls).ids.length := by decide
  have hfirst : 0 < ((Process.idle none (some 0xffffffff)).run twoCalls).ids.length := by decide
  refine ⟨by decide +kernel, h.2.2.1 0 (by decide), hsecond, ?_⟩
  exact h.2.2.2.1 0 1 hfirst hsecond (by decide) (by decide)

end Bson.ObjectId

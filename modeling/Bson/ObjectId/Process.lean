import Bson.ObjectId

/-!
# Ids drawn by calls that interleave

Calls of one process draw ids side by side. A call reads the clock, fetches the bytes of the
process, fetches the counter and steps it, and between its steps other calls may take theirs. The
bytes and the start of the counter are settled by the first call that comes to them; the counter is
stepped at once, by `Generator.next`.

* `Call`: how far a call has come.
* `Process`: what the calls share, and the ids in the order in which the counter was stepped for
  them.
* `Process.step` is one step of one call, `Process.run` a schedule of steps of any calls.
-/

namespace Bson.ObjectId

/-- What a step may draw on: the clock, in nanoseconds since the start of 1970, and random bytes. -/
structure Surroundings where
  clock : Int
  bytes : Vector UInt8 5
  seed : UInt32

/-- The seconds that an id records for a reading of the clock: the low 32 bits of their number, and
zero before 1970. -/
def seconds (clock : Int) : UInt32 := UInt32.ofNat (clock / 1000000000).toNat

/-- How far a call has come, with what it has fetched so far. -/
inductive Call
  | begun
  | timed (seconds : UInt32)
  | marked (seconds : UInt32) (bytes : Vector UInt8 5)
  | counting (seconds : UInt32) (bytes : Vector UInt8 5)
  | returned (id : ObjectId)

/-- A process in which calls draw ids. -/
structure Process where
  /-- The bytes that all ids share, once a call has settled them. -/
  bytes? : Option (Vector UInt8 5)
  /-- The counter, once a call has settled its start. -/
  counter? : Option UInt32
  /-- The calls by their numbers; those that do not take a step remain begun. -/
  calls : Nat → Call
  /-- The calls for which the counter was stepped, in this order, with their ids. -/
  drawn : List (Nat × ObjectId)

namespace Process

/-- A process before its first call. Bytes and counter may be left from earlier calls. -/
def idle (bytes? : Option (Vector UInt8 5)) (counter? : Option UInt32) : Process :=
  ⟨bytes?, counter?, fun _ => .begun, []⟩

/-- The ids, in the order in which the counter was stepped for them. -/
def ids (p : Process) : List ObjectId := p.drawn.map Prod.snd

/-- Takes a call to where it has come. -/
def move (p : Process) (call : Nat) (stage : Call) : Process :=
  { p with calls := fun k => if k = call then stage else p.calls k }

/-- The next step of a call. A call that has returned takes none. -/
def step (p : Process) (call : Nat) (s : Surroundings) : Process :=
  match p.calls call with
  | .begun => p.move call (.timed (seconds s.clock))
  | .timed t =>
    let bytes := p.bytes?.getD s.bytes
    { p.move call (.marked t bytes) with bytes? := some bytes }
  | .marked t bytes =>
    let counter := p.counter?.getD (Generator.seeded bytes s.seed).counter
    { p.move call (.counting t bytes) with counter? := some counter }
  | .counting t bytes =>
    match p.counter? with
    -- a call that has fetched the counter finds it there
    | none => p
    | some counter =>
      let (id, g) := (Generator.mk bytes counter).next t
      { p.move call (.returned id) with
        counter? := some g.counter, drawn := p.drawn ++ [(call, id)] }
  | .returned _ => p

/-- The steps of a schedule, one after another. -/
def run (p : Process) (schedule : List (Nat × Surroundings)) : Process :=
  schedule.foldl (fun p e => p.step e.1 e.2) p

end Process

end Bson.ObjectId

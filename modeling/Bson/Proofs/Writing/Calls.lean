import Bson.Proofs.Writing.Relaxed
import Bson.Proofs.Writing.Runs
import Bson.Value.Hook

/-!
# Calls one after another

A writer can be called again after a call that failed. The frames that were open at the failure stay
open, so the number of open frames is all that later calls notice of it, and each such failure
brings the limit of nesting nearer.

* `Call`: a document, an array or a value that is written. `Call.outcome`, `Call.after`: what a call
  gives, and the writer that it leaves. `Call.afterAll`: the writer that several calls leave.
* `EndsAt`: how a run leaves the number of open frames. `Closes`: that it closes what it opens unless
  it fails. `Writer.value_closes`: so does the writing of a value.
* `LeavesOpen`: that a run which fails leaves a frame open. `Writer.value_leavesOpen`: so does the
  writing of a value that is not refused at once.
* `Call.outcome_eq`: what a call gives depends on nothing but the number of open frames.
* `calls_independent_iff`: so calls are independent of each other exactly if none fails in a frame.
-/

namespace Bson

open Writer

/-! ### Calls -/

/-- A call of a writer. -/
inductive Call
  | document (d : Document)
  | array (list : List Value)
  | value (v : Value)

/-- A writer that has counted nothing yet. -/
abbrev Writer.fresh : Writer Tally := ⟨{}, 0⟩

/-- Whether a value is refused before anything is written: its hook cannot be called, or returns a
value with a hook. -/
def Value.isRefused (v : Value) : Bool :=
  match v.resolve with
  | .ok result => result.isConvertible
  | .error _ => true

namespace Call

variable {σ : Type} [Sink σ]

/-- The steps of a call; only those of a value tell a tag. -/
def run (options : WriteOptions) : Call → WriteM σ (Option Tag)
  | .document d => do
    Writer.document options d
    return none
  | .array list => do
    Writer.array options list
    return none
  | .value v => do
    return some (← Writer.value options v)

/-- What a call gives: a tag and the number of bytes that were added, or an error. -/
def outcome (options : WriteOptions) (c : Call) (w : Writer σ) :
    Except Error (Option Tag × Nat) :=
  match c.run options w with
  | .ok tag w' => .ok (tag, Sink.size w'.sink - Sink.size w.sink)
  | .error e _ => .error e

/-- The writer that a call leaves. -/
def after (options : WriteOptions) (c : Call) (w : Writer σ) : Writer σ :=
  match c.run options w with
  | .ok _ w' => w'
  | .error _ w' => w'

/-- The writer that several calls leave, be they successful or not. -/
def afterAll (options : WriteOptions) (calls : List Call) (w : Writer σ) : Writer σ :=
  calls.foldl (fun w c => c.after options w) w

/-- What a call appends with a number of frames open. -/
def layout (options : WriteOptions) (depth : Nat) : Call → Except Error (Option Tag × List UInt8)
  | .document d => (Layout.payload options depth (.document d)).map fun p => (none, p.bytes)
  | .array list => (Layout.payload options depth (.array list)).map fun p => (none, p.bytes)
  | .value v => (Layout.payload options depth v).map fun p => (some p.tag, p.bytes)

/-- Whether a call is refused before anything is written. -/
def isRefused : Call → Bool
  | .value v => v.isRefused
  | _ => false

end Call

/-! ### Open frames -/

section Frames

variable {σ α β : Type}

/-- How a run leaves the number of open frames: as it was before if it ends well, else with a
property. -/
def EndsAt (depth : Nat) (failed : Nat → Prop) : EStateM.Result Error (Writer σ) α → Prop
  | .ok _ w => w.depth = depth
  | .error _ w => failed w.depth

/-- Frames that are opened are closed if a run ends well; none are closed that were open before. -/
def Closes (m : WriteM σ α) : Prop := ∀ w, EndsAt w.depth (w.depth ≤ ·) (m w)

theorem EndsAt.mono {depth : Nat} {failed failed' : Nat → Prop}
    {run : EStateM.Result Error (Writer σ) α} (h : EndsAt depth failed run)
    (himp : ∀ n, failed n → failed' n) : EndsAt depth failed' run := by
  cases run with
  | ok a w => exact h
  | error e w => exact himp _ h

/-- After steps that end well, the number of open frames is as before. -/
theorem EndsAt.bind {m : WriteM σ α} {f : α → WriteM σ β} {w : Writer σ} {failed : Nat → Prop}
    (hm : EndsAt w.depth failed (m w))
    (hf : ∀ a (w' : Writer σ), w'.depth = w.depth → EndsAt w.depth failed (f a w')) :
    EndsAt w.depth failed ((m >>= f) w) := by
  cases hrun : m w with
  | ok a w' =>
    rw [hrun] at hm
    rw [Error.bind_eq_of_ok f hrun]
    exact hf a w' hm
  | error e w' =>
    rw [hrun] at hm
    rw [Error.bind_eq_of_error f hrun]
    exact hm

namespace Closes

theorem pure (a : α) : Closes (pure a : WriteM σ α) := fun _ => rfl

theorem throw (e : Error) : Closes (throw e : WriteM σ α) := fun _ => Nat.le_refl _

theorem onSink (f : SinkM σ α) : Closes (onSink f) := by
  rintro ⟨sink, depth⟩
  unfold Writer.onSink
  dsimp only
  cases f sink with
  | ok a s => exact rfl
  | error e s => exact Nat.le_refl depth

theorem bind {m : WriteM σ α} {f : α → WriteM σ β} (hm : Closes m) (hf : ∀ a, Closes (f a)) :
    Closes (m >>= f) := by
  intro w
  refine EndsAt.bind (hm w) fun a w' hw' => ?_
  have h := hf a w'
  rwa [hw'] at h

theorem tagged {m : WriteM σ Unit} (hm : Closes m) (tag : Tag) : Closes (do m; return tag) :=
  hm.bind fun _ => pure tag

variable [Sink σ]

theorem measured {body : WriteM σ Unit} (hbody : Closes body) : Closes (Writer.measured body) :=
  (onSink _).bind fun _ => hbody.bind fun _ => onSink _

theorem element {key : String} {payload : WriteM σ Tag} (hpayload : Closes payload) :
    Closes (Writer.element key payload) :=
  (onSink _).bind fun _ => (onSink _).bind fun _ => hpayload.bind fun _ => onSink _

/-- A frame is left open by what fails in it. -/
theorem container_ends {elements : WriteM σ Unit} (h : Closes elements) {w : Writer σ}
    (hw : w.depth < maxDepth) : EndsAt w.depth (w.depth < ·) (Writer.container elements w) := by
  have hrun : Writer.container elements w = (enter >>= fun _ =>
      Writer.measured (elements >>= fun _ => Writer.onSink (Sink.writeByte 0)) >>= fun _ => leave)
        w := rfl
  rw [hrun, Error.bind_eq_of_ok _ (enter_of_lt hw)]
  have hbody := (h.bind fun _ => onSink (Sink.writeByte 0)).measured ⟨w.sink, w.depth + 1⟩
  cases hmeasured : Writer.measured (elements >>= fun _ => Writer.onSink (Sink.writeByte 0))
      ⟨w.sink, w.depth + 1⟩ with
  | ok u w' =>
    rw [hmeasured] at hbody
    rw [Error.bind_eq_of_ok _ hmeasured]
    exact Nat.sub_eq_of_eq_add hbody
  | error e w' =>
    rw [hmeasured] at hbody
    rw [Error.bind_eq_of_error _ hmeasured]
    exact hbody

theorem container {elements : WriteM σ Unit} (h : Closes elements) :
    Closes (Writer.container elements) := by
  intro w
  rcases Nat.lt_or_ge w.depth maxDepth with hw | hw
  · exact (h.container_ends hw).mono fun _ => Nat.le_of_lt
  · have hrun : Writer.container elements w = _ := Error.bind_eq_of_error _ (enter_of_le hw)
    rw [hrun]
    exact Nat.le_refl _

end Closes

namespace Writer

variable {options : WriteOptions}

theorem checkKey_closes (key : String) : Closes (checkKey options key : WriteM σ Unit) := by
  unfold checkKey
  split
  · cases Key.check key with
    | ok u => exact .pure ()
    | error e => exact .throw e
  · exact .pure ()

variable [Sink σ]

theorem number_closes (x : Double) : Closes (number x : WriteM σ Tag) := by
  unfold number
  cases x.toInt32? with
  | some n => exact (Closes.onSink _).tagged .int32
  | none => exact (Closes.onSink _).tagged .double

theorem reference_closes {collection : String} {id : WriteM σ Tag} {database : Option String}
    (hid : Closes id) :
    Closes (do
      element refKey (text .string collection)
      element idKey id
      match database with
      | some database => element dbKey (text .string database)
      | none => pure ()) := by
  have hname : ∀ s, Closes (text .string s : WriteM σ Tag) := fun s =>
    (Closes.onSink _).tagged .string
  refine (hname collection).element.bind fun _ => hid.element.bind fun _ => ?_
  cases database with
  | none => exact .pure ()
  | some database => exact (hname database).element

mutual

/-- The writing of a value closes the frames that it opens. -/
theorem value_closes : ∀ v : Value, Closes (value options v : WriteM σ Tag)
  | .double x => number_closes x
  | .boxedDouble _ | .int32 _ | .long _ | .string _ | .binary _ | .bytes _ | .objectId _
  | .boolean _ | .dateTime _ | .regex _ | .code _ | .function _ | .symbol _ | .timestamp _ =>
    (Closes.onSink _).tagged _
  | .null | .undefined => .pure Tag.null
  | .minKey => .pure Tag.minKey
  | .maxKey => .pure Tag.maxKey
  | .document d => (elements_closes d.entries).container.tagged .document
  | .array list => (items_closes list 0).container.tagged .array
  | .scopedCode source scope => by
    rw [value]
    split
    · exact (Closes.onSink _).tagged .code
    · exact ((Closes.onSink _).bind fun _ =>
        (elements_closes scope.entries).container).measured.tagged .scopedCode
  | .dbRef _ id _ => (reference_closes (value_closes id)).container.tagged .document
  | .hook _ result => by
    rw [value]
    split
    · exact .throw _
    · exact value_closes result
  | .brokenHook _ => .throw _

/-- So does that of fields. -/
theorem elements_closes : ∀ {keys : List String} (es : Entries Value keys),
    Closes (elements options es : WriteM σ Unit)
  | _, .nil => .pure ()
  | _, .snoc init key v _ => by
    rw [elements]
    refine (elements_closes init).bind fun _ => (checkKey_closes key).bind fun _ => ?_
    split
    · exact .pure ()
    · exact (value_closes v).element

/-- And that of items. -/
theorem items_closes : ∀ (list : List Value) (index : Nat),
    Closes (items options index list : WriteM σ Unit)
  | [], _ => .pure ()
  | v :: rest, index => by
    rw [items]
    exact (value_closes v).element.bind fun _ => items_closes rest (index + 1)

end

end Writer

end Frames

/-! ### What a call does -/

namespace Call

variable {options : WriteOptions}

/-- A call appends what it is laid out as. -/
theorem run_writes {σ : Type} [Sink σ] {law : Sink.Law σ} (depth : Nat) (c : Call) :
    Writes law depth (c.run options) (c.layout options depth) := by
  cases c with
  | document d =>
    refine ((document_writesAt d depth).map fun _ => none).congr ?_
    rw [layout]
    cases Layout.payload options depth (.document d) <;> rfl
  | array list =>
    refine ((array_writesAt list depth).map fun _ => none).congr ?_
    rw [layout]
    cases Layout.payload options depth (.array list) <;> rfl
  | value v =>
    refine ((value_writes v depth).map some).congr ?_
    rw [layout]
    cases Layout.payload options depth v <;> rfl

theorem run_closes {σ : Type} [Sink σ] (c : Call) :
    Closes (c.run options : WriteM σ (Option Tag)) := by
  cases c with
  | document d => exact (elements_closes d.entries).container.bind fun _ => .pure none
  | array list => exact (items_closes list 0).container.bind fun _ => .pure none
  | value v => exact (value_closes v).bind fun tag => .pure (some tag)

/-- What a call gives depends on nothing but the number of open frames. -/
theorem outcome_eq (c : Call) (w : Writer Tally) :
    c.outcome options w =
      (c.layout options w.depth).map fun (tag, bytes) => (tag, bytes.length) := by
  have hwrites : Writes Tally.law w.depth (c.run options) _ := c.run_writes w.depth
  unfold outcome
  cases hx : c.layout options w.depth with
  | error e =>
    rw [hx] at hwrites
    obtain ⟨w', hrun⟩ := hwrites.tally_error_from w.sink
    rw [hrun]
    rfl
  | ok p =>
    obtain ⟨tag, bytes⟩ := p
    rw [hx] at hwrites
    rw [hwrites.tally_ok_from w.sink]
    exact congrArg (fun n => Except.ok (tag, n)) (Nat.add_sub_cancel_left _ _)

/-- With fewer frames open, a call gives the same unless it was too deep. -/
theorem outcome_upToNesting (options : WriteOptions) (c : Call) {w w' : Writer Tally}
    (h : w'.depth ≤ w.depth) :
    UpTo (· = .nestingTooDeep maxDepth) (c.outcome options w) (c.outcome options w') := by
  rw [outcome_eq, outcome_eq]
  cases c with
  | document d => exact ((Layout.payload_upToNesting options (.document d) h).map _).map _
  | array list => exact ((Layout.payload_upToNesting options (.array list) h).map _).map _
  | value v => exact ((Layout.payload_upToNesting options v h).map _).map _

theorem error_upToNesting (c : Call) {w w' : Writer Tally} (h : w'.depth ≤ w.depth) {e : Error}
    (he : c.outcome options w' = .error e) : ∃ e', c.outcome options w = .error e' := by
  rcases outcome_upToNesting options c h with heq | ⟨e', -, heq⟩
  · exact ⟨e, heq.trans he⟩
  · exact ⟨e', heq⟩

end Call

/-! ### Calls that fail -/

/-- A run that fails leaves a frame open. -/
def LeavesOpen {α : Type} (m : WriteM Tally α) : Prop :=
  ∀ w, w.depth < maxDepth → EndsAt w.depth (w.depth < ·) (m w)

namespace LeavesOpen

variable {α β : Type}

/-- What cannot fail. -/
theorem of_writes {m : WriteM Tally α} {a : α} {bytes : List UInt8}
    (h : ∀ depth, Writes Tally.law depth m (.ok (a, bytes))) : LeavesOpen m := by
  intro w _
  rw [(h w.depth).tally_ok_from w.sink]
  exact rfl

theorem bind {m : WriteM Tally α} {f : α → WriteM Tally β} (hm : LeavesOpen m)
    (hf : ∀ a, LeavesOpen (f a)) : LeavesOpen (m >>= f) := by
  intro w hw
  refine EndsAt.bind (hm w hw) fun a w' hw' => ?_
  have h := hf a w'
  rw [hw'] at h
  exact h hw

theorem tagged {m : WriteM Tally Unit} (hm : LeavesOpen m) (tag : Tag) :
    LeavesOpen (do m; return tag) :=
  hm.bind fun _ => of_writes fun _ => .pure tag

theorem measured {body : WriteM Tally Unit} (hbody : LeavesOpen body) :
    LeavesOpen (Writer.measured body) :=
  bind (fun _ _ => rfl) fun _ => hbody.bind fun _ _ _ => rfl

theorem container {elements : WriteM Tally Unit} (h : Closes elements) :
    LeavesOpen (Writer.container elements) := fun _ hw => h.container_ends hw

end LeavesOpen

theorem Value.isRefused_eq_false {v : Value} (h : v.isConvertible = false) :
    v.isRefused = false := by
  cases v <;> first | exact h | cases h

section Failing

variable {options : WriteOptions}

/-- A value that is not refused at once fails in a frame. -/
theorem Writer.value_leavesOpen : ∀ v : Value, v.isRefused = false →
    LeavesOpen (value options v)
  | .double _, _ | .boxedDouble _, _ | .int32 _, _ | .long _, _ | .string _, _ | .binary _, _
  | .bytes _, _ | .objectId _, _ | .boolean _, _ | .dateTime _, _ | .null, _ | .undefined, _
  | .regex _, _ | .code _, _ | .function _, _ | .symbol _, _ | .timestamp _, _ | .minKey, _
  | .maxKey, _ => .of_writes (value_writes _)
  | .document d, _ => (LeavesOpen.container (elements_closes d.entries)).tagged .document
  | .array list, _ => (LeavesOpen.container (items_closes list 0)).tagged .array
  | .scopedCode source scope, _ => by
    rw [value]
    split
    · exact .of_writes fun _ => text_writes _ .code (fun _ _ => rfl) (fun _ _ => rfl) source
    · have hsource : LeavesOpen (onSink (Sink.writeString source)) :=
        .of_writes fun _ => .writeString source
      exact (hsource.bind fun _ =>
        .container (elements_closes scope.entries)).measured.tagged .scopedCode
  | .dbRef _ id _, _ =>
    (LeavesOpen.container (reference_closes (value_closes id))).tagged .document
  | .hook _ result, h => by
    have hresult : result.isConvertible = false := h
    rw [value, hresult]
    exact value_leavesOpen result (Value.isRefused_eq_false hresult)

theorem Writer.value_of_isRefused {v : Value} (h : v.isRefused) (w : Writer Tally) :
    ∃ e, value options v w = .error e w := by
  cases v with
  | hook token result =>
    have hresult : result.isConvertible = true := h
    rw [value, hresult]
    exact ⟨_, rfl⟩
  | brokenHook slot => exact ⟨_, rfl⟩
  | _ => cases h

namespace Call

/-- A call that is not refused at once fails in a frame. -/
theorem run_leavesOpen {c : Call} (h : c.isRefused = false) : LeavesOpen (c.run options) := by
  cases c with
  | document d =>
    exact (LeavesOpen.container (elements_closes d.entries)).bind fun _ =>
      .of_writes fun _ => .pure none
  | array list =>
    exact (LeavesOpen.container (items_closes list 0)).bind fun _ =>
      .of_writes fun _ => .pure none
  | value v => exact (value_leavesOpen v h).bind fun tag => .of_writes fun _ => .pure (some tag)

/-- A call that is refused at once leaves the writer as it is. -/
theorem run_of_isRefused {c : Call} (h : c.isRefused) (w : Writer Tally) :
    ∃ e, c.run options w = .error e w := by
  cases c with
  | document d => cases h
  | array list => cases h
  | value v =>
    obtain ⟨e, he⟩ : ∃ e, Writer.value options v w = .error e w := value_of_isRefused h w
    exact ⟨e, Error.bind_eq_of_error _ he⟩

/-- How a call leaves the number of open frames, in terms of its outcome. -/
theorem depth_after {c : Call} {w : Writer Tally} {failed : Nat → Prop}
    (h : EndsAt w.depth failed (c.run options w)) :
    (∀ r, c.outcome options w = .ok r → (c.after options w).depth = w.depth) ∧
      ∀ e, c.outcome options w = .error e → failed (c.after options w).depth := by
  unfold outcome after
  cases hrun : c.run options w with
  | ok tag w' =>
    rw [hrun] at h
    exact ⟨fun _ _ => h, nofun⟩
  | error e w' =>
    rw [hrun] at h
    exact ⟨nofun, fun _ _ => h⟩

/-- A call that succeeds closes the frames that it opens. -/
theorem depth_after_of_ok {c : Call} {w : Writer Tally} {r : Option Tag × Nat}
    (h : c.outcome options w = .ok r) : (c.after options w).depth = w.depth :=
  (depth_after (c.run_closes w)).1 r h

theorem depth_after_of_isRefused {c : Call} (h : c.isRefused) (w : Writer Tally) :
    (c.after options w).depth = w.depth := by
  obtain ⟨e, he⟩ : ∃ e, c.run options w = .error e w := run_of_isRefused h w
  rw [after, he]

/-- No call closes a frame that was open before. -/
theorem le_depth_after (c : Call) (w : Writer Tally) : w.depth ≤ (c.after options w).depth := by
  cases hx : c.outcome options w with
  | ok r => exact Nat.le_of_eq (depth_after_of_ok hx).symm
  | error e => exact (depth_after (c.run_closes w)).2 e hx

/-- A call that fails leaves a frame open unless it is refused at once. -/
theorem lt_depth_after {c : Call} (hc : c.isRefused = false) {w : Writer Tally}
    (hw : w.depth < maxDepth) {e : Error} (h : c.outcome options w = .error e) :
    w.depth < (c.after options w).depth :=
  (depth_after (run_leavesOpen hc w hw)).2 e h

/-! ### Calls in a row -/

/-- Every one of several calls, one after another, gives what it gives on a fresh writer, and leaves
the number of open frames as it was. -/
def Independent (options : WriteOptions) : List Call → Writer Tally → Prop
  | [], _ => True
  | c :: rest, w =>
    (c.outcome options w = c.outcome options Writer.fresh ∧ (c.after options w).depth = w.depth) ∧
      Independent options rest (c.after options w)

/-- A call that succeeds on a fresh writer, or is refused at once. -/
def IsSafe (options : WriteOptions) (c : Call) : Prop :=
  (∃ r, c.outcome options Writer.fresh = .ok r) ∨ c.isRefused

/-- With no frame open, a call is independent of what was written before exactly if it is safe. -/
theorem keeps_iff {c : Call} {w : Writer Tally} (hw : w.depth = 0) :
    (c.outcome options w = c.outcome options Writer.fresh ∧ (c.after options w).depth = w.depth) ↔
      c.IsSafe options := by
  have hsame : c.outcome options w = c.outcome options Writer.fresh := by
    rw [outcome_eq, outcome_eq, hw]
  constructor
  · rintro ⟨-, hdepth⟩
    cases hx : c.outcome options Writer.fresh with
    | ok r => exact .inl ⟨r, hx⟩
    | error e =>
      cases hc : c.isRefused with
      | true => exact .inr hc
      | false =>
        have hlt := lt_depth_after hc (hw ▸ by decide) (hsame.trans hx)
        exact absurd hdepth (Nat.ne_of_gt hlt)
  · rintro (⟨r, hr⟩ | hc)
    · exact ⟨hsame, depth_after_of_ok (hsame.trans hr)⟩
    · exact ⟨hsame, depth_after_of_isRefused hc w⟩

/-- With no frame open, calls are independent of each other exactly if all are safe. -/
theorem independent_iff {calls : List Call} {w : Writer Tally} (hw : w.depth = 0) :
    Independent options calls w ↔ ∀ c ∈ calls, c.IsSafe options := by
  induction calls generalizing w with
  | nil => exact ⟨fun _ _ h => absurd h List.not_mem_nil, fun _ => trivial⟩
  | cons c rest ih =>
    rw [Independent, keeps_iff hw, List.forall_mem_cons]
    refine and_congr_right fun hsafe => ih ?_
    rw [((keeps_iff hw).2 hsafe).2, hw]

/-- Each call that is not safe brings the limit of nesting nearer. -/
theorem le_depth_afterAll {calls : List Call} (h : ∀ c ∈ calls, ¬c.IsSafe options)
    (w : Writer Tally) :
    min (w.depth + calls.length) maxDepth ≤ (afterAll options calls w).depth := by
  induction calls generalizing w with
  | nil => exact Nat.min_le_left _ _
  | cons c rest ih =>
    obtain ⟨hc, hrest⟩ := List.forall_mem_cons.1 h
    obtain ⟨hfresh, hrefused⟩ := not_or.1 hc
    have hstep : min (w.depth + 1) maxDepth ≤ (c.after options w).depth := by
      rcases Nat.lt_or_ge w.depth maxDepth with hw | hw
      · cases hx : c.outcome options Writer.fresh with
        | ok r => exact absurd ⟨r, hx⟩ hfresh
        | error e =>
          obtain ⟨e', he'⟩ := c.error_upToNesting (Nat.zero_le w.depth) hx
          have hlt := lt_depth_after (Bool.eq_false_iff.2 hrefused) hw he'
          exact Nat.le_trans (Nat.min_le_left _ _) hlt
      · exact Nat.le_trans (Nat.le_trans (Nat.min_le_right _ _) hw) (c.le_depth_after w)
    have hlast : min ((c.after options w).depth + rest.length) maxDepth ≤
        (afterAll options (c :: rest) w).depth := ih hrest _
    rw [List.length_cons]
    omega

/-- After as many such calls as frames may be open, every document is too deep. -/
theorem document_after_failures {calls : List Call} (h : ∀ c ∈ calls, ¬c.IsSafe options)
    (hlength : maxDepth ≤ calls.length) (d : Document) :
    (document d).outcome options (afterAll options calls Writer.fresh) =
      .error (.nestingTooDeep maxDepth) := by
  have hdepth : maxDepth ≤ (afterAll options calls Writer.fresh).depth := by
    refine Nat.le_trans (Nat.le_min.2 ⟨?_, Nat.le_refl _⟩) (le_depth_afterAll h _)
    exact Nat.le_trans hlength (Nat.le_add_left _ _)
  rw [outcome_eq, layout, Layout.payload, Layout.frame, if_pos hdepth]
  rfl

end Call

/-- **When calls are independent of earlier failures.** On a fresh writer, every one of several
calls gives what it gives alone and leaves the number of open frames as it was, exactly if each of
them succeeds alone or is refused before anything is written. Whatever was written before, a call
gives what it gives alone, or is too deep. -/
theorem calls_independent_iff (options : WriteOptions) (calls : List Call) :
    (Call.Independent options calls Writer.fresh ↔ ∀ c ∈ calls, c.IsSafe options) ∧
      ∀ (c : Call) (w : Writer Tally), c.outcome options w = c.outcome options Writer.fresh ∨
        c.outcome options w = .error (.nestingTooDeep maxDepth) := by
  refine ⟨Call.independent_iff rfl, fun c w => ?_⟩
  have hle : Writer.fresh.depth ≤ w.depth := Nat.zero_le _
  rcases Call.outcome_upToNesting options c hle with hsame | ⟨_, rfl, hdeep⟩
  · exact .inl hsame
  · exact .inr hdeep

/-- A hundred documents with a refused key leave no room for an empty one. -/
theorem calls_dependent_after_hundred :
    let options : WriteOptions := { checkKeys := true }
    let failing := List.replicate 100 (Call.document (.ofList [("$", .null)]))
    (∀ c ∈ failing, c.outcome options Writer.fresh = .error (.keyInvalid "$" .startsWithDollar)) ∧
      (Call.document .empty).outcome options Writer.fresh = .ok (none, 5) ∧
      (Call.document .empty).outcome options (Call.afterAll options failing Writer.fresh) =
        .error (.nestingTooDeep 100) ∧
      ¬Call.Independent options (failing ++ [.document .empty]) Writer.fresh := by
  intro options failing
  have hfails : ∀ c ∈ failing, c.outcome options Writer.fresh =
      .error (.keyInvalid "$" .startsWithDollar) := by
    intro c hc
    rw [List.eq_of_mem_replicate hc, Call.outcome_eq]
    rfl
  have hunsafe : ∀ c ∈ failing, ¬c.IsSafe options := by
    rintro c hc (⟨r, hr⟩ | hrefused)
    · cases (hfails c hc).symm.trans hr
    · rw [List.eq_of_mem_replicate hc] at hrefused
      cases hrefused
  refine ⟨hfails, ?_, Call.document_after_failures hunsafe (Nat.le_of_eq (by rfl)) .empty,
    fun h => ?_⟩
  · rw [Call.outcome_eq]
    rfl
  · exact hunsafe _ List.mem_cons_self ((Call.independent_iff rfl).1 h _ List.mem_cons_self)

end Failing

end Bson

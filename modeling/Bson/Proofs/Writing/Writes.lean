import Bson.Proofs.Writing.Sinks

/-!
# What a writer does to its sink

A writer appends the bytes of the layout, whatever its sink, as long as they fit.

* `Outcome`: how a run of a writer ends, compared with what it should append.
* `Writes m x`: so ends every run of `m`, where `x` gives the result and the bytes of `m`, or its
  fault. The rules `Writes.bind`, `Writes.pure`, … follow the steps of `m`.
* `Writer.value_writes`, `Writer.elements_writes`, `Writer.items_writes`: a value, the fields of a
  document and the items of an array are written as they are laid out.
-/

namespace Bson

open Grammar Writer

variable {σ α β : Type}

namespace Writer

/-- Steps on the sink one after another. -/
theorem onSink_bind (f : SinkM σ α) (g : α → SinkM σ β) :
    onSink (f >>= g) = onSink f >>= fun a => onSink (g a) := by
  funext w
  change onSink (EStateM.bind f g) w = EStateM.bind (onSink f) (fun a => onSink (g a)) w
  unfold onSink EStateM.bind
  cases hf : f w.sink with
  | ok a s' => simp [hf]
  | error e s' => simp [hf]

theorem onSink_lift_of_ok {f : σ → Except Error (α × σ)} {s s' : σ} {a : α} {depth : Nat}
    (h : f s = .ok (a, s')) : onSink (Sink.lift f) ⟨s, depth⟩ = .ok a ⟨s', depth⟩ := by
  simp only [onSink, Sink.lift, h]

theorem onSink_lift_of_error {f : σ → Except Error (α × σ)} {s : σ} {e : Error} {depth : Nat}
    (h : f s = .error e) : onSink (Sink.lift f) ⟨s, depth⟩ = .error e ⟨s, depth⟩ := by
  simp only [onSink, Sink.lift, h]

theorem enter_of_lt {s : σ} {depth : Nat} (h : depth < maxDepth) :
    enter ⟨s, depth⟩ = .ok () ⟨s, depth + 1⟩ := by
  change (if maxDepth ≤ depth then _ else _ : WriteM σ Unit) ⟨s, depth⟩ = _
  rw [if_neg (Nat.not_le.2 h)]
  rfl

theorem enter_of_le {s : σ} {depth : Nat} (h : maxDepth ≤ depth) :
    enter ⟨s, depth⟩ = .error (.nestingTooDeep maxDepth) ⟨s, depth⟩ := by
  change (if maxDepth ≤ depth then _ else _ : WriteM σ Unit) ⟨s, depth⟩ = _
  rw [if_pos h]
  rfl

end Writer

variable [Sink σ]

/-- A run failed, with bytes behind those that the sink held. -/
def Stops (law : Sink.Law σ) (l : List UInt8) (e : Error) :
    EStateM.Result Error (Writer σ) α → Prop
  | .ok _ _ => False
  | .error e' w => e' = e ∧ ∃ l', law.Holds w.sink (l ++ l')

/-- How a run ends that should give `x`, with `l` in the sink before. It ends well exactly if the
bytes fit; a fault may be met only after there is no more room. -/
def Outcome (law : Sink.Law σ) (depth : Nat) (l : List UInt8) :
    Except Error (α × List UInt8) → EStateM.Result Error (Writer σ) α → Prop
  | .ok (a, bytes), run =>
    (law.Fits (l.length + bytes.length) ∧
        ∃ s', run = .ok a ⟨s', depth⟩ ∧ law.Holds s' (l ++ bytes)) ∨
      (¬law.Fits (l.length + bytes.length) ∧ Stops law l law.fault run)
  | .error e, run =>
    Stops law l e run ∨ ((∃ n, ¬law.Fits n) ∧ Stops law l law.fault run)

/-- At a depth, a writer does what `x` says. -/
def Writes (law : Sink.Law σ) (depth : Nat) (m : WriteM σ α)
    (x : Except Error (α × List UInt8)) : Prop :=
  ∀ s l, law.Holds s l → Outcome law depth l x (m ⟨s, depth⟩)

/-- What is appended by one writer after another. -/
def andThen (x : Except Error (α × List UInt8)) (y : α → Except Error (β × List UInt8)) :
    Except Error (β × List UInt8) := do
  let (a, bytes) ← x
  let (b, rest) ← y a
  return (b, bytes ++ rest)

@[simp] theorem andThen_ok (a : α) (bytes : List UInt8)
    (y : α → Except Error (β × List UInt8)) :
    andThen (.ok (a, bytes)) y = (y a).map fun (b, rest) => (b, bytes ++ rest) := rfl

namespace Stops

variable {law : Sink.Law σ} {l : List UInt8} {e : Error} {w : Writer σ}

/-- A failure that appends nothing. -/
theorem of_holds (h : law.Holds w.sink l) :
    Stops law l e (.error e w : EStateM.Result Error (Writer σ) α) :=
  ⟨rfl, [], by rwa [List.append_nil]⟩

theorem bind {m : WriteM σ α} (f : α → WriteM σ β) (h : Stops law l e (m w)) :
    Stops law l e ((m >>= f) w) := by
  change Stops law l e (EStateM.bind m f w)
  unfold EStateM.bind
  cases hm : m w with
  | ok a w' =>
    rw [hm] at h
    exact h.elim
  | error e' w' =>
    rw [hm] at h
    exact h

/-- What the sink held before may be less. -/
theorem of_append {l' : List UInt8} {run : EStateM.Result Error (Writer σ) α}
    (h : Stops law (l ++ l') e run) : Stops law l e run := by
  cases run with
  | ok a w' => exact h
  | error e' w' =>
    obtain ⟨he, m, hm⟩ := h
    exact ⟨he, l' ++ m, by rwa [← List.append_assoc]⟩

end Stops

/-- A run that fails makes every run fail that stops where it does. -/
theorem Outcome.fault {law : Sink.Law σ} {depth depth' : Nat} {l l' : List UInt8} {e : Error}
    {run : EStateM.Result Error (Writer σ) α} {run' : EStateM.Result Error (Writer σ) β}
    (h : Outcome law depth l (.error e) run)
    (hstops : ∀ {e' : Error}, Stops law l e' run → Stops law l' e' run') :
    Outcome law depth' l' (.error e) run' := by
  rcases h with hstop | ⟨hfull, hstop⟩
  · exact .inl (hstops hstop)
  · exact .inr ⟨hfull, hstops hstop⟩

namespace Writes

variable {law : Sink.Law σ} {depth : Nat}

theorem congr {m : WriteM σ α} {x y : Except Error (α × List UInt8)}
    (h : Writes law depth m x) (hxy : x = y) : Writes law depth m y := hxy ▸ h

theorem pure (a : α) : Writes law depth (pure a) (.ok (a, [])) := by
  intro s l h
  exact .inl ⟨law.fits_of_holds h, s, rfl, by rwa [List.append_nil]⟩

theorem throw (e : Error) : Writes law depth (throw e : WriteM σ α) (.error e) := by
  intro s l h
  exact .inl (Stops.of_holds h)

theorem bind {m : WriteM σ α} {x : Except Error (α × List UInt8)} {f : α → WriteM σ β}
    {y : α → Except Error (β × List UInt8)} (hm : Writes law depth m x)
    (hf : ∀ a, Writes law depth (f a) (y a)) : Writes law depth (m >>= f) (andThen x y) := by
  intro s l h
  have hrun := hm s l h
  cases x with
  | error e => exact hrun.fault fun hstop => hstop.bind f
  | ok p =>
    obtain ⟨a, bytes⟩ := p
    rcases hrun with ⟨-, s', hok, hholds⟩ | ⟨hfull, hstop⟩
    · rw [Error.bind_eq_of_ok _ hok]
      have hrest := hf a s' (l ++ bytes) hholds
      rw [andThen_ok]
      cases hy : y a with
      | error e =>
        rw [hy] at hrest
        exact hrest.fault fun hstop => hstop.of_append
      | ok q =>
        obtain ⟨b, rest⟩ := q
        rw [hy] at hrest
        have hlen : (l ++ bytes).length + rest.length = l.length + (bytes ++ rest).length := by
          simp only [List.length_append, Nat.add_assoc]
        rcases hrest with ⟨hfits, s'', hok', hholds'⟩ | ⟨hfull, hstop⟩
        · exact .inl ⟨hlen ▸ hfits, s'', hok', by rwa [← List.append_assoc]⟩
        · exact .inr ⟨hlen ▸ hfull, hstop.of_append⟩
    · -- no room is left for the bytes of `m`, so none for what comes after them
      rw [andThen_ok]
      cases y a with
      | error e => exact .inr ⟨⟨_, hfull⟩, hstop.bind f⟩
      | ok q =>
        refine .inr ⟨fun hfits => hfull (law.fits_of_le ?_ hfits), hstop.bind f⟩
        rw [List.length_append]
        omega

/-! ### Bytes and texts -/

theorem write (b : ByteArray) :
    Writes law depth (onSink (Sink.write b)) (.ok ((), b.data.toList)) := by
  intro s l h
  rcases law.put b h with ⟨hfits, s', hput, hholds⟩ | ⟨hfull, hput⟩
  · exact .inl ⟨hfits, s', onSink_lift_of_ok (by rw [hput]; rfl), hholds⟩
  · have hrun : onSink (Sink.write b) ⟨s, depth⟩ = .error law.fault ⟨s, depth⟩ :=
      onSink_lift_of_error (by rw [hput]; rfl)
    rw [hrun]
    exact .inr ⟨hfull, .of_holds h⟩

theorem writeByte (b : UInt8) :
    Writes law depth (onSink (Sink.writeByte b)) (.ok ((), [b])) := by
  have h : Writes law depth _ _ := write [b].toByteArray
  rwa [List.toList_data_toByteArray] at h

theorem writeInt32 (n : Int32) :
    Writes law depth (onSink (Sink.writeInt32 n)) (.ok ((), Grammar.int32 n)) := by
  have h : Writes law depth _ _ := write (LittleEndian.ofInt32 n)
  rwa [toList_ofInt32] at h

theorem writeInt64 (n : Int64) :
    Writes law depth (onSink (Sink.writeInt64 n)) (.ok ((), Grammar.int64 n)) := by
  have h : Writes law depth _ _ := write (LittleEndian.ofInt64 n)
  rwa [toList_ofInt64] at h

theorem writeDouble (x : Double) :
    Writes law depth (onSink (Sink.writeDouble x)) (.ok ((), Grammar.double x)) := by
  have h : Writes law depth _ _ := write (LittleEndian.ofUInt64 x.bits)
  rwa [toList_ofUInt64] at h

theorem writeCString (s : String) :
    Writes law depth (onSink (Sink.writeCString s)) (.ok ((), Grammar.cstring s)) := by
  rw [Sink.writeCString, onSink_bind]
  exact (write s.toUTF8).bind fun _ => writeByte 0

theorem writeString (s : String) :
    Writes law depth (onSink (Sink.writeString s))
      (.ok ((), enclosed (Layout.textLength s) (Grammar.utf8 s))) := by
  rw [Sink.writeString, onSink_bind]
  exact (writeInt32 _).bind fun _ => writeCString s

/-! ### Room that is filled in later -/

/-- Room is reserved, a body is written and the room is filled in with as many bytes, which depend
on the result and the bytes of the body. -/
theorem reserved {n : Nat} {body : WriteM σ α} {x : Except Error (α × List UInt8)}
    (hbody : Writes law depth body x) (commit : Nat → α → σ → σ)
    (fill : α → List UInt8 → List UInt8) (hlen : ∀ a m, (fill a m).length = n)
    (hcommit : ∀ {s l m} (a : α), law.Holds s (l ++ (List.replicate n 0 ++ m)) →
      law.Holds (commit (law.base + l.length) a s) (l ++ (fill a m ++ m))) :
    Writes law depth
      (do
        let position ← onSink (Sink.lift (Sink.reserve n))
        let a ← body
        onSink (modify (commit position a)))
      (x.map fun (a, bytes) => ((), fill a bytes ++ bytes)) := by
  intro s l h
  -- the position that was reserved stays that of the room, whatever the body appends behind it
  rcases law.reserve n h with ⟨-, s', hres, hholds⟩ | ⟨hfull, hres⟩
  · rw [Error.bind_eq_of_ok _ (onSink_lift_of_ok hres)]
    have hrun := hbody s' _ hholds
    cases x with
    | error e => exact hrun.fault fun hstop => hstop.of_append.bind _
    | ok p =>
      obtain ⟨a, bytes⟩ := p
      have hsum : (l ++ List.replicate n 0).length + bytes.length =
          l.length + (fill a bytes ++ bytes).length := by
        simp only [List.length_append, List.length_replicate, hlen, Nat.add_assoc]
      rcases hrun with ⟨hfits, s'', hok, hholds'⟩ | ⟨hfull, hstop⟩
      · rw [Error.bind_eq_of_ok _ hok]
        refine .inl ⟨hsum ▸ hfits, commit (law.base + l.length) a s'', rfl, hcommit a ?_⟩
        rwa [← List.append_assoc]
      · exact .inr ⟨hsum ▸ hfull, hstop.of_append.bind _⟩
  · have hstop : Stops law l law.fault (onSink (Sink.lift (Sink.reserve n)) ⟨s, depth⟩) := by
      rw [onSink_lift_of_error hres]
      exact .of_holds h
    cases x with
    | error e => exact .inr ⟨⟨_, hfull⟩, hstop.bind _⟩
    | ok p =>
      refine .inr ⟨fun hfits => hfull (law.fits_of_le ?_ hfits), hstop.bind _⟩
      rw [List.length_append, hlen]
      omega

theorem measured {body : WriteM σ Unit} {x : Except Error (Unit × List UInt8)}
    (hbody : Writes law depth body x) :
    Writes law depth (Writer.measured body)
      (x.map fun (_, bytes) => ((), Grammar.int32 (Int32.ofNat (bytes.length + 4)) ++ bytes)) :=
  reserved hbody (fun position _ => Sink.commitLength position)
    (fun _ m => Grammar.int32 (Int32.ofNat (m.length + 4)))
    (fun _ _ => length_int32 _) fun _ h => law.commitLength h

theorem element {key : String} {payload : WriteM σ Tag} {x : Except Error (Tag × List UInt8)}
    (hpayload : Writes law depth payload x) :
    Writes law depth (Writer.element key payload)
      (x.map fun (tag, bytes) => ((), tag.toByte :: (Grammar.cstring key ++ bytes))) := by
  have hkey : Writes law depth _ _ := writeCString key
  have hbody := hkey.bind fun _ => hpayload
  have h := reserved hbody Sink.commitTag (fun tag _ => [tag.toByte]) (fun _ _ => rfl)
    fun tag h => law.commitTag tag h
  simp only [bind_assoc] at h
  cases x with
  | error e => exact h
  | ok p => exact h

/-- A frame around what `elements` writes, unless too many are open. -/
theorem container {elements : WriteM σ Unit} {x : Except Error (Unit × List UInt8)}
    (h : Writes law (depth + 1) elements x) :
    Writes law depth (Writer.container elements)
      (if maxDepth ≤ depth then .error (.nestingTooDeep maxDepth)
       else x.map fun (_, bytes) => ((), enclosed (Layout.frameLength bytes) bytes)) := by
  intro s l hholds
  have hrun : Writer.container elements ⟨s, depth⟩ = (enter >>= fun _ =>
      Writer.measured (elements >>= fun _ => onSink (Sink.writeByte 0)) >>= fun _ => leave)
        ⟨s, depth⟩ := rfl
  rw [hrun]
  by_cases hdeep : maxDepth ≤ depth
  · rw [if_pos hdeep]
    refine .inl (Stops.bind _ ?_)
    rw [enter_of_le hdeep]
    exact .of_holds hholds
  · rw [if_neg hdeep, Error.bind_eq_of_ok _ (enter_of_lt (Nat.not_le.1 hdeep))]
    have hinner := (h.bind fun _ => writeByte 0).measured s l hholds
    cases x with
    | error e => exact hinner.fault fun hstop => hstop.bind _
    | ok p =>
      obtain ⟨_, bytes⟩ := p
      have hlength : Layout.frameLength bytes = Int32.ofNat ((bytes ++ [0]).length + 4) := by
        rw [Layout.frameLength, List.length_append, List.length_singleton]
      change Outcome law depth l (.ok ((), Grammar.int32 (Layout.frameLength bytes) ++ _)) _
      rw [hlength]
      rcases hinner with ⟨hfits, s', hok, hholds'⟩ | ⟨hfull, hstop⟩
      · -- closing takes back the opening
        rw [Error.bind_eq_of_ok _ hok]
        exact .inl ⟨hfits, s', rfl, hholds'⟩
      · exact .inr ⟨hfull, hstop.bind _⟩

/-- What a writer does whose result is taken over by a function. -/
theorem map {m : WriteM σ α} {x : Except Error (α × List UInt8)} (hm : Writes law depth m x)
    (f : α → β) :
    Writes law depth (do return f (← m)) (x.map fun (a, bytes) => (f a, bytes)) := by
  have h := hm.bind fun a => pure (f a)
  cases x with
  | error e => exact h
  | ok p =>
    have hx : andThen (.ok p) (fun a => .ok (f a, [])) = .ok (f p.1, p.2 ++ []) := rfl
    rwa [hx, List.append_nil] at h

/-- What a writer does under a tag that is known. -/
theorem tagged {m : WriteM σ Unit} {x : Except Error (Unit × List UInt8)}
    (hm : Writes law depth m x) (tag : Tag) :
    Writes law depth (do m; return tag) (x.map fun (_, bytes) => (tag, bytes)) :=
  hm.map fun _ => tag

theorem frame {elements : WriteM σ Unit} {body : Except Error Elements}
    (h : Writes law (depth + 1) elements (body.map fun es => ((), es.bytes)))
    {make : Int32 → Elements → Payload}
    (hbytes : ∀ n es, (make n es).bytes = enclosed n es.bytes) :
    Writes law depth (Writer.container elements)
      ((Layout.frame make depth body).map fun p => ((), p.bytes)) := by
  have hframe := h.container
  unfold Layout.frame
  by_cases hdeep : maxDepth ≤ depth
  · rw [if_pos hdeep] at hframe ⊢
    exact hframe
  · rw [if_neg hdeep] at hframe ⊢
    cases body with
    | error e => exact hframe
    | ok es =>
      change Writes law depth _ (.ok ((), (make _ es).bytes))
      rw [hbytes]
      exact hframe

theorem frame_tagged {elements : WriteM σ Unit} {body : Except Error Elements}
    (h : Writes law (depth + 1) elements (body.map fun es => ((), es.bytes))) {tag : Tag}
    {make : Int32 → Elements → Payload} (htag : ∀ n es, (make n es).tag = tag)
    (hbytes : ∀ n es, (make n es).bytes = enclosed n es.bytes) :
    Writes law depth (do Writer.container elements; return tag)
      ((Layout.frame make depth body).map fun p => (p.tag, p.bytes)) := by
  refine ((h.frame hbytes).tagged tag).congr ?_
  unfold Layout.frame
  split
  · rfl
  · cases body with
    | error e => rfl
    | ok es => exact congrArg (fun t => Except.ok (t, _)) (htag _ es).symm

end Writes

namespace Writer

variable {law : Sink.Law σ} {options : WriteOptions}

theorem checkKey_writes (depth : Nat) (key : String) :
    Writes law depth (checkKey options key)
      ((Layout.checkKey options key).map fun _ => ((), [])) := by
  unfold checkKey Layout.checkKey
  split
  · cases Key.check key with
    | ok u => exact .pure ()
    | error e => exact .throw e
  · exact .pure ()

theorem number_writes (depth : Nat) (x : Double) :
    Writes law depth (number x) (.ok ((Layout.number x).tag, (Layout.number x).bytes)) := by
  unfold number Layout.number
  cases x.toInt32? with
  | some n => exact (Writes.writeInt32 n).tagged .int32
  | none => exact (Writes.writeDouble x).tagged .double

theorem text_writes (depth : Nat) {tag : Tag} (make : Int32 → String → Payload)
    (htag : ∀ n s, (make n s).tag = tag)
    (hbytes : ∀ n s, (make n s).bytes = enclosed n (Grammar.utf8 s)) (s : String) :
    Writes law depth (text tag s)
      (.ok ((Layout.text make s).tag, (Layout.text make s).bytes)) := by
  rw [Layout.text, htag, hbytes]
  exact (Writes.writeString s).tagged tag

theorem halves_writes (depth : Nat) (tag : Tag) (low high : Int32) :
    Writes law depth (halves tag low high)
      (.ok (tag, Grammar.int32 low ++ Grammar.int32 high)) := by
  rw [halves, onSink_bind]
  exact ((Writes.writeInt32 low).bind fun _ => Writes.writeInt32 high).tagged tag

theorem binary_writes (depth : Nat) (subtype : UInt8) (data : ByteArray) :
    Writes law depth (binary subtype data)
      (.ok ((Layout.binary subtype data).tag, (Layout.binary subtype data).bytes)) := by
  have hlength : Writes law depth _ _ := .writeInt32 (Int32.ofNat data.size)
  have hsubtype : Writes law depth _ _ := .writeByte subtype
  have hdata : Writes law depth _ _ := .write data
  unfold binary Layout.binary
  simp only [onSink_bind]
  by_cases hold : subtype = oldBinarySubtype
  · simp only [if_pos hold, onSink_bind]
    subst hold
    exact (hlength.bind fun _ => hsubtype.bind fun _ => hlength.bind fun _ => hdata).tagged .binary
  · simp only [if_neg hold]
    exact (hlength.bind fun _ => hsubtype.bind fun _ => hdata).tagged .binary

theorem scopedCode_writes {depth : Nat} {source : String} {scope : WriteM σ Unit}
    {body : Except Error Elements}
    (h : Writes law (depth + 1) scope (body.map fun es => ((), es.bytes))) :
    Writes law depth
      (do
        measured do
          onSink (Sink.writeString source)
          container scope
        return .scopedCode)
      ((Layout.frame (Layout.codeWithScope source) depth body).map fun p => (p.tag, p.bytes)) := by
  have hcode := ((Writes.writeString source).bind fun _ => h.container).measured.tagged .scopedCode
  unfold Layout.frame
  by_cases hdeep : maxDepth ≤ depth
  · rw [if_pos hdeep] at hcode ⊢
    exact hcode
  · rw [if_neg hdeep] at hcode ⊢
    cases body with
    | error e => exact hcode
    | ok es =>
      refine hcode.congr ?_
      simp only [andThen_ok, Except.map, Except.bind, bind, pure, Except.pure,
        Layout.codeWithScope, Payload.bytes, Payload.tag, List.length_append, Layout.frameLength]

theorem reference_writes {depth : Nat} {collection : String} {id : WriteM σ Tag}
    {body : Except Error Payload} {database : Option String}
    (hid : Writes law depth id (body.map fun p => (p.tag, p.bytes))) :
    Writes law depth
      (do
        element refKey (text .string collection)
        element idKey id
        match database with
        | some database => element dbKey (text .string database)
        | none => pure ())
      ((body.map fun p => Layout.reference collection p database).map fun es => ((), es.bytes)) := by
  have htext : ∀ s, Writes law depth (text .string s) (.ok (.string, _)) := fun s =>
    text_writes depth .string (fun _ _ => rfl) (fun _ _ => rfl) s
  cases database with
  | none =>
    refine ((htext collection).element.bind fun _ => hid.element.bind fun _ => .pure ()).congr ?_
    cases body with
    | error e => rfl
    | ok p => simp [Except.map, Layout.reference, Layout.text, Payload.tag, Elements.bytes]
  | some database =>
    refine ((htext collection).element.bind fun _ => hid.element.bind fun _ =>
      (htext database).element).congr ?_
    cases body with
    | error e => rfl
    | ok p => simp [Except.map, Layout.reference, Layout.text, Payload.tag, Elements.bytes]

mutual

/-- A value is written as it is laid out. -/
theorem value_writes : ∀ (v : Value) (depth : Nat), Writes law depth (value options v)
    ((Layout.payload options depth v).map fun p => (p.tag, p.bytes))
  | .double x, depth => number_writes depth x
  | .boxedDouble x, _ => (Writes.writeDouble x).tagged .double
  | .int32 n, _ => (Writes.writeInt32 n).tagged .int32
  | .long n, depth => halves_writes depth .int64 n.low n.high
  | .string s, depth => text_writes depth .string (fun _ _ => rfl) (fun _ _ => rfl) s
  | .document d, depth =>
    (elements_writes d.entries (depth + 1)).frame_tagged (fun _ _ => rfl) fun _ _ => rfl
  | .array list, depth =>
    (items_writes list 0 (depth + 1)).frame_tagged (fun _ _ => rfl) fun _ _ => rfl
  | .binary b, depth => binary_writes depth b.subtype b.data
  | .bytes data, depth => binary_writes depth genericSubtype data
  | .objectId id, _ => (Writes.write id.bytes).tagged .objectId
  | .boolean b, _ => (Writes.writeByte (if b then 1 else 0)).tagged .boolean
  | .dateTime millis, _ => (Writes.writeInt64 millis).tagged .dateTime
  | .null, _ => .pure Tag.null
  | .undefined, _ => .pure Tag.null
  | .regex r, _ => by
    simp only [value, onSink_bind]
    exact ((Writes.writeCString r.pattern).bind fun _ =>
      Writes.writeCString r.flags.toOptions).tagged .regex
  | .code source, depth => text_writes depth .code (fun _ _ => rfl) (fun _ _ => rfl) source
  | .scopedCode source scope, depth => by
    rw [value, Layout.payload]
    split
    · exact text_writes depth .code (fun _ _ => rfl) (fun _ _ => rfl) source
    · exact scopedCode_writes (elements_writes scope.entries (depth + 1))
  | .function source, depth => text_writes depth .code (fun _ _ => rfl) (fun _ _ => rfl) source
  | .symbol s, depth => text_writes depth .symbol (fun _ _ => rfl) (fun _ _ => rfl) s
  | .timestamp t, depth => halves_writes depth .timestamp t.low t.high
  | .minKey, _ => .pure Tag.minKey
  | .maxKey, _ => .pure Tag.maxKey
  | .dbRef collection id database, depth =>
    (reference_writes (value_writes id (depth + 1))).frame_tagged (fun _ _ => rfl) fun _ _ => rfl
  | .hook _ result, depth => by
    rw [value, Layout.payload]
    split
    · exact .throw _
    · exact value_writes result depth
  | .brokenHook slot, _ => .throw _

/-- The fields of a document are written as they are laid out. -/
theorem elements_writes : ∀ {keys : List String} (es : Entries Value keys) (depth : Nat),
    Writes law depth (elements options es)
      ((Layout.fields options depth es).map fun es => ((), es.bytes))
  | _, .nil, _ => .pure ()
  | _, .snoc init key v _, depth => by
    have hfield : Writes law depth
        (if isDropped options v then pure () else element key (value options v))
        (if isDropped options v then .ok ((), [])
         else (Layout.payload options depth v).map fun p =>
          ((), p.tag.toByte :: (Grammar.cstring key ++ p.bytes))) := by
      split
      · exact .pure ()
      · refine (value_writes v depth).element.congr ?_
        cases Layout.payload options depth v <;> rfl
    rw [elements, Layout.fields]
    refine ((elements_writes init depth).bind fun _ =>
      (checkKey_writes depth key).bind fun _ => hfield).congr ?_
    cases Layout.fields options depth init with
    | error e => rfl
    | ok front =>
      cases Layout.checkKey options key with
      | error e => rfl
      | ok u =>
        change andThen (.ok ((), front.bytes)) (fun _ => andThen (.ok ((), [])) fun _ => _) =
          Except.map _ (if isDropped options v = true then _ else _)
        split
        · simp [Except.map, pure, Except.pure]
        · cases Layout.payload options depth v <;>
            simp [Except.map, bind, Except.bind, pure, Except.pure, Elements.bytes_snoc]

/-- The items of an array are written as they are laid out. -/
theorem items_writes : ∀ (list : List Value) (index depth : Nat),
    Writes law depth (items options index list)
      ((Layout.items options depth index list).map fun es => ((), es.bytes))
  | [], _, _ => .pure ()
  | v :: rest, index, depth => by
    rw [items, Layout.items]
    refine ((value_writes v depth).element.bind fun _ =>
      items_writes rest (index + 1) depth).congr ?_
    cases Layout.payload options depth v with
    | error e => rfl
    | ok p =>
      cases Layout.items options depth (index + 1) rest with
      | error e => rfl
      | ok es =>
        simp [Except.map, bind, Except.bind, pure, Except.pure, Elements.bytes]

end

/-- A document is written as it is laid out, at every depth. -/
theorem document_writesAt (d : Document) (depth : Nat) : Writes law depth (document options d)
    ((Layout.payload options depth (.document d)).map fun p => ((), p.bytes)) :=
  (elements_writes d.entries (depth + 1)).frame fun _ _ => rfl

/-- So is an array. -/
theorem array_writesAt (list : List Value) (depth : Nat) : Writes law depth (array options list)
    ((Layout.payload options depth (.array list)).map fun p => ((), p.bytes)) :=
  (items_writes list 0 (depth + 1)).frame fun _ _ => rfl

/-- The outermost document. -/
theorem document_writes (d : Document) :
    Writes law 0 (document options d)
      ((Layout.document options d).map fun p => ((), p.bytes)) :=
  document_writesAt d 0

end Writer

end Bson

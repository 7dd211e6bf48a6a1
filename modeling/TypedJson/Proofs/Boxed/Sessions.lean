import TypedJson.Proofs.Boxed.Conversion
import TypedJson.Proofs.KeptByCalls

/-!
# TypedJson — storage is unobservable

Two sessions that make the same calls on values that differ in storage alone get the same answers,
call by call, with the one exception of the question for the storage itself.

* **`Value.Related`**, **`Call.Related`**, **`Answer.Related`** — what it is to differ in storage
  alone;
* **`Call.run_boxed`** — one call, on values and on their form without columns;
* **`Session.run_related`** — two whole sessions.
-/

namespace TypedJson

/-! ## Calls on values without columns -/

/-- The call with types that have no columns in their defaults. An array starts without a column. -/
def Fresh.boxed : Fresh → Fresh
  | null => null
  | scalar s => scalar s
  | emptyArray t => emptyBoxed t.boxed
  | emptyBoxed t => emptyBoxed t.boxed
  | emptyMap t => emptyMap t.boxed
  | zero t => zero t.boxed
  | document j => document j

def Reading.boxed : Reading → Reading
  | decode target limit => decode target.boxed limit
  | decodeRecord target limit => decodeRecord target.boxed limit
  | decodeArray elementType limit => decodeArray elementType.boxed limit
  | decodeMap constraint limit => decodeMap (constraint.map Ty.boxed) limit
  | encodeMap target limit => encodeMap target.boxed limit
  | encodeMember target limit => encodeMember target.boxed limit
  | r => r

def Write.boxed : Write → Write
  | putEncoded key target limit => putEncoded key target.boxed limit
  | c => c

def Question.boxed : Question → Question
  | admittedBy target => admittedBy target.boxed
  | q => q

def Call.boxed : Call → Call
  | fresh f => fresh f.boxed
  | arrayOf elementType slots => arrayOf elementType.boxed slots
  | read r slot => read r.boxed slot
  | edit e slot => edit e slot
  | write c slot operand => write c.boxed slot operand
  | ask q slot => ask q.boxed slot
  | equal left right => equal left right

/-- The answer with values and types that have no columns, and without what it says of columns. -/
def Answer.boxed : Answer → Answer
  | values vs => values (vs.map Value.boxed)
  | type t => type t.boxed
  | packed _ => packed false
  | answer => answer

/-- The two lists hold, in order, values that differ in storage alone. -/
def Value.AllAlike (vs ws : List Value) : Prop := vs.map boxed = ws.map boxed

/-! ## What calls give -/

namespace Value.AllAlike

theorem one {v w : Value} (h : v.Alike w) : AllAlike [v] [w] := congrArg (fun v => [v]) h

theorem boxed (vs : List Value) : AllAlike vs (vs.map Value.boxed) := map_boxed_boxed vs

theorem found (v : Option Value) : AllAlike v.toList (v.map Value.boxed).toList := by
  cases v with
  | none => rfl
  | some v => exact one (.boxed v)

end Value.AllAlike

namespace SameOutcome

variable {α β γ δ : Type} {R : α → β → Prop} {S : γ → δ → Prop}

/-- A session refuses for an error what the library refuses with it, so nothing of an outcome is
lost. -/
theorem attempt {x : Except Error α} {y : Except Error β} (h : SameOutcome R x y) :
    SameOutcome R (TypedJson.attempt x) (TypedJson.attempt y) :=
  h.mapError

theorem single {x y : Except Error Value} (h : SameOutcome Value.Alike x y) :
    SameOutcome Value.AllAlike (Reading.single x) (Reading.single y) :=
  (h.map (S := Value.AllAlike) fun _ _ => .one).attempt

/-- Calls for arrays apply to a value and to its form alike. -/
theorem onArray {f : TypedArray → Except Refusal γ} {g : TypedArray → Except Refusal δ} {v : Value}
    (h : ∀ a, v = .array a → SameOutcome S (f a) (g a.boxed)) :
    SameOutcome S (applicable v.asArray? >>= f) (applicable v.boxed.asArray? >>= g) := by
  cases v with
  | array a => exact h a rfl
  | _ => exact .error _

theorem onMap {f : TypedMap → Except Refusal γ} {g : TypedMap → Except Refusal δ} {v : Value}
    (h : ∀ m, v = .map m → SameOutcome S (f m) (g m.boxed)) :
    SameOutcome S (applicable v.asMap? >>= f) (applicable v.boxed.asMap? >>= g) := by
  cases v with
  | map m => exact h m rfl
  | _ => exact .error _

/-- A result and its form. -/
theorem of_mapped {x : Except Error α} {y : Except Error β} {f : α → β} (h : y = x.map f) :
    SameOutcome (fun a b => b = f a) x y := by
  subst h
  cases x with
  | ok a => exact .ok rfl
  | error e => exact .error e

/-- Where the result on the form is the form of the result, the two are alike. -/
theorem of_boxed {x y : Except Error Value} (h : y = x.map Value.boxed) :
    SameOutcome Value.Alike x y :=
  (of_mapped h).mono fun v _ hw => hw ▸ .boxed v

end SameOutcome

/-- Values out of nothing. The two calls for an empty array are one in the form: whether it starts
with a column is what cannot be told. -/
theorem Fresh.value_boxed (f : Fresh) : f.value.Alike f.boxed.value := by
  cases f with
  | zero t => exact t.zero_boxed
  | emptyArray t =>
    show Value.array (TypedArray.empty t).boxed = Value.array (TypedArray.emptyBoxed t.boxed).boxed
    rw [TypedArray.boxed_empty]
    exact congrArg (fun t => Value.array (.emptyBoxed t)) t.boxed_boxed.symm
  | emptyBoxed t => exact congrArg (fun t => Value.array (.emptyBoxed t)) t.boxed_boxed.symm
  | emptyMap t => exact TypedMap.alike_iff.mpr (TypedMap.empty_alike t)
  | _ => exact .refl _

/-- Reading, conversions included, does not see storage. Each call is made of operations that were
shown not to. -/
theorem Reading.run_boxed (r : Reading) (v : Value) :
    SameOutcome Value.AllAlike (r.run v) (r.boxed.run v.boxed) := by
  cases r with
  | copy => exact .ok (.one (.boxed v))
  | item index =>
    refine SameOutcome.onArray fun a _ => .ok ?_
    rw [TypedArray.get?_boxed]
    exact .found _
  | itemChecked index =>
    exact SameOutcome.onArray fun a _ => (SameOutcome.of_boxed (a.get_boxed index)).single
  | items =>
    refine SameOutcome.onArray fun a _ => .ok ?_
    rw [TypedArray.toList_boxed]
    exact .boxed _
  | entry key =>
    refine SameOutcome.onMap fun m _ => .ok ?_
    rw [TypedMap.get?_boxed]
    exact .found _
  | entries =>
    refine SameOutcome.onMap fun m _ => .ok ?_
    -- the values of the form are the forms of the values
    have hvalues : m.boxed.entries.map Prod.snd = (m.entries.map Prod.snd).map Value.boxed := by
      rw [TypedMap.entries_boxed, List.map_map, List.map_map]
      rfl
    rw [hvalues]
    exact .boxed _
  | element index => exact (SameOutcome.of_boxed (v.getElement_boxed index)).single
  | field key =>
    refine .ok (.one ?_)
    rw [Value.getField_boxed]
    exact .boxed _
  | decode target limit => exact (target.decode_boxed (.root limit) v).single
  | decodeRecord target limit => exact ((Ty.record target).decode_boxed (.root limit) v).single
  | decodeArray elementType limit =>
    exact ((Ty.array elementType).decode_boxed (.root limit) v).single
  | decodeMap constraint limit =>
    -- a map type is taken apart by the form, so the target is put together again first
    have hdecode := (Ty.map constraint).decode_boxed (.root limit) v
    rw [Ty.boxed_map] at hdecode
    exact hdecode.single
  | encodeArray limit =>
    refine SameOutcome.onArray fun a _ => ?_
    exact ((Value.array a).encode_boxed.1 true (.root limit)).single
  | encodeMap target limit =>
    refine SameOutcome.onMap fun m _ => SameOutcome.single ?_
    have hrebuild := m.rebuild_alike target (.root limit) fun e _ inner =>
      e.2.encode_boxed.2 target inner
    exact hrebuild.map fun _ _ => TypedMap.alike_iff.mpr
  | encodeMember target limit => exact (v.encodeMember_boxed target (.root limit)).single
  | encodeRecord limit =>
    refine SameOutcome.single ?_
    exact (v.encodeRecord_boxed (.root limit)).map fun _ _ => TypedMap.alike_iff.mpr

/-- What a call that changes a value gives: the value after the change, and more values. -/
def Value.ChangedAlike (p q : Value × List Value) : Prop := p.1.Alike q.1 ∧ AllAlike p.2 q.2

/-- A change without an operand does not see storage. -/
theorem Edit.run_boxed (e : Edit) (v : Value) :
    SameOutcome Value.ChangedAlike (e.run v) (e.run v.boxed) := by
  rw [run_eq, run_eq]
  cases e with
  | freeze =>
    refine .ok ⟨?_, rfl⟩
    rw [Value.freeze_boxed]
    exact .boxed _
  | remove key =>
    refine SameOutcome.onMap fun m _ => ?_
    -- the map afterwards is alike, and so is what was under the key before
    refine (SameOutcome.of_mapped (m.remove_boxed key)).attempt.bind fun n n' hn => .ok ⟨?_, ?_⟩
    · exact hn ▸ .boxed (.map n)
    · rw [TypedMap.get?_boxed]
      exact .found _
  | removeField key =>
    exact (SameOutcome.of_boxed (v.removeField_boxed key)).attempt.bind
      fun _ _ hw => .ok ⟨hw, rfl⟩

/-- A write does not see storage, provided that the array written to fits its element type: a column
that does not would refuse what its type admits. -/
theorem Write.run_boxed (c : Write) {v : Value} (hfits : v.HasFittingStorage) (x : Value) :
    SameOutcome Value.ChangedAlike (c.run v x) (c.boxed.run v.boxed x.boxed) := by
  rw [run_eq, run_eq]
  cases c with
  | set index =>
    refine SameOutcome.onArray fun a ha => ?_
    subst ha
    exact (SameOutcome.of_mapped (TypedArray.set_boxed hfits index x)).attempt.bind
      fun b b' hb => .ok ⟨hb ▸ .boxed (.array b), rfl⟩
  | push =>
    refine SameOutcome.onArray fun a ha => ?_
    subst ha
    exact (SameOutcome.of_mapped (TypedArray.push_boxed hfits x)).attempt.bind
      fun b b' hb => .ok ⟨hb ▸ .boxed (.array b), rfl⟩
  | put key =>
    refine SameOutcome.onMap fun m _ => ?_
    refine (SameOutcome.of_mapped (m.put_boxed key x)).attempt.bind fun n n' hn => .ok ⟨?_, ?_⟩
    · exact hn ▸ .boxed (.map n)
    · rw [TypedMap.get?_boxed]
      exact .found _
  | setField key =>
    exact (SameOutcome.of_boxed (v.setField_boxed key x)).attempt.bind
      fun _ _ hw => .ok ⟨hw, rfl⟩
  | setElement index =>
    exact (SameOutcome.of_boxed (Value.setElement_boxed hfits index x)).attempt.bind
      fun _ _ hw => .ok ⟨hw, rfl⟩
  | putEncoded key target limit =>
    refine SameOutcome.onMap fun m _ => ?_
    -- what is stored was converted, and conversion gives alike values only, not equal ones
    show SameOutcome _ (attempt (m.putEncoded key x target (.root limit)) >>= _)
      (attempt (m.boxed.putEncoded key x.boxed target.boxed (.root limit)) >>= _)
    rw [TypedMap.putEncoded_eq, TypedMap.putEncoded_eq]
    have hstore := TypedMap.store_alike (TypedMap.alike_iff.mp (.boxed (.map m))) key
      (x.encode_boxed.2 target (.root limit))
    exact hstore.attempt.bind fun _ _ hn => .ok ⟨TypedMap.alike_iff.mpr hn, rfl⟩

/-- Two answers that are one once columns are forgotten. -/
def Answer.Alike (a b : Answer) : Prop := a.boxed = b.boxed

theorem Answer.Alike.refl (a : Answer) : a.Alike a := Eq.refl a.boxed

/-- Questions are answered alike. The one about storage itself has an answer that counts as alike to
any other. -/
theorem Question.run_boxed (q : Question) (v : Value) :
    SameOutcome Answer.Alike (q.run v) (q.boxed.run v.boxed) := by
  cases q with
  | typeOf =>
    refine .ok ?_
    show Answer.type v.typeOf.boxed = Answer.type v.boxed.typeOf.boxed
    rw [Value.typeOf_boxed, Ty.boxed_boxed]
  | typeName => exact .ok (congrArg Answer.text v.typeName_boxed.symm)
  | isNull => exact .ok (congrArg Answer.flag v.isNull_boxed.symm)
  | isFrozen => exact .ok (congrArg Answer.flag v.isFrozen_boxed.symm)
  | isObject =>
    have hshape : v.isObject = v.boxed.isObject := by
      rw [Value.isObject, Value.isObject, Value.asObject?_boxed, Option.isSome_map]
    exact .ok (congrArg Answer.flag hshape)
  -- these look at the constructor only, or at a scalar
  | isArray | isMap => cases v <;> exact .ok rfl
  | asBool | asInt | asFloat | asString => cases v <;> exact .ok rfl
  | text => exact .ok (congrArg Answer.text v.text_boxed.symm)
  | toJson =>
    show SameOutcome Answer.Alike (attempt (v.toJson.map .document))
      (attempt (v.boxed.toJson.map .document))
    rw [Value.toJson_boxed]
    exact .refl .refl _
  | admittedBy target => exact .ok (congrArg Answer.flag (target.admits_boxed v).symm)
  | hasField key => exact .ok (congrArg Answer.flag (v.hasField_boxed key).symm)
  | fieldKeys => exact .ok (congrArg Answer.keys v.keys_boxed.symm)
  | hasKey key =>
    exact SameOutcome.onMap fun m _ => .ok (congrArg Answer.flag (m.hasKey_boxed key).symm)
  | keys => exact SameOutcome.onMap fun m _ => .ok (congrArg Answer.keys m.keys_boxed.symm)
  | size =>
    cases v with
    | array a => exact .ok (congrArg Answer.count a.size_boxed.symm)
    | map m => exact .ok (congrArg Answer.count m.size_boxed.symm)
    | _ => exact .error _
  -- `packed` answers are alike whatever they say
  | isPacked => exact SameOutcome.onArray fun a _ => .ok rfl

/-! ## Calls -/

namespace Session

/-- The session with values that have no columns. -/
def boxed (session : Session) : Session := session.map Value.boxed

/-- What a call leads to: the answer, and the session after it. -/
def OutcomesAlike (p q : Answer × Session) : Prop := p.1.Alike q.1 ∧ Value.AllAlike p.2 q.2

/-- The form of a session has the forms of its values, slot by slot. -/
theorem valueAt_boxed (session : Session) (slot : Nat) :
    SameOutcome (fun v w => v ∈ session ∧ w = v.boxed) (session.valueAt slot)
      (session.boxed.valueAt slot) := by
  unfold valueAt boxed
  rw [List.getElem?_map]
  cases hslot : session[slot]? with
  | none => exact .error _
  | some v => exact .ok ⟨List.mem_of_getElem? hslot, rfl⟩

/-- The same for several slots at a time. -/
theorem valuesAt_boxed (session : Session) (slots : List Nat) :
    SameOutcome (fun vs ws => ws = vs.map Value.boxed) (slots.mapM session.valueAt)
      (slots.mapM session.boxed.valueAt) := by
  have hslots := SameOutcome.mapM (f := id) fun slot (_ : slot ∈ slots) =>
    session.valueAt_boxed slot
  rw [List.map_id] at hslots
  refine hslots.mono fun vs ws h => ?_
  induction h with
  | nil => rfl
  | cons hhead _ ih => rw [List.map_cons, hhead.2, ih]

/-- New values go to the end of both sessions. -/
theorem adding_alike {s s' : Session} {vs ws : List Value} (hs : Value.AllAlike s s')
    (h : Value.AllAlike vs ws) : OutcomesAlike (s.adding vs) (s'.adding ws) := by
  refine ⟨congrArg Answer.values h, ?_⟩
  show (s ++ vs).map Value.boxed = (s' ++ ws).map Value.boxed
  rw [List.map_append, List.map_append, hs, h]

/-- A changed value goes back into its slot, which is the same in both. -/
theorem changing_alike {s s' : Session} (slot : Nat) {p q : Value × List Value}
    (hs : Value.AllAlike s s') (h : Value.ChangedAlike p q) :
    OutcomesAlike (s.changing slot p.1 p.2) (s'.changing slot q.1 q.2) := by
  obtain ⟨hafter, hvalues⟩ := h
  refine ⟨congrArg Answer.values hvalues, ?_⟩
  show (s.set slot p.1 ++ p.2).map Value.boxed = (s'.set slot q.1 ++ q.2).map Value.boxed
  rw [List.map_append, List.map_append, List.map_set, List.map_set, hs, hafter, hvalues]

end Session

/-- **One call does not see storage.** What it leads to on a session is alike to what the same call
leads to on the session without columns. -/
theorem Call.run_boxed (c : Call) {session : Session}
    (hfits : ∀ v ∈ session, v.HasFittingStorage) :
    SameOutcome Session.OutcomesAlike (c.run session) (c.boxed.run session.boxed) := by
  rw [run_eq, run_eq]
  have hsession : Value.AllAlike session session.boxed := .boxed session
  cases c with
  | fresh f => exact .ok (Session.adding_alike hsession (.one f.value_boxed))
  | arrayOf elementType slots =>
    refine (session.valuesAt_boxed slots).bind fun vs ws hws => ?_
    subst hws
    exact (TypedArray.ofList_alike elementType vs).attempt.bind fun a b h =>
      .ok (Session.adding_alike hsession (.one (TypedArray.alike_iff.mpr h)))
  | read r slot =>
    refine (session.valueAt_boxed slot).bind fun v w ⟨_, hw⟩ => ?_
    subst hw
    exact (r.run_boxed v).bind fun vs ws h => .ok (Session.adding_alike hsession h)
  | edit e slot =>
    refine (session.valueAt_boxed slot).bind fun v w ⟨_, hw⟩ => ?_
    subst hw
    exact (e.run_boxed v).bind fun p q h => .ok (Session.changing_alike slot hsession h)
  -- this is where the storage of the target has to fit
  | write c slot operand =>
    refine (session.valueAt_boxed slot).bind fun v w ⟨hmem, hw⟩ => ?_
    refine (session.valueAt_boxed operand).bind fun x y ⟨_, hy⟩ => ?_
    subst hw hy
    exact (c.run_boxed (hfits v hmem) x).bind fun p q h =>
      .ok (Session.changing_alike slot hsession h)
  | ask q slot =>
    refine (session.valueAt_boxed slot).bind fun v w ⟨_, hw⟩ => ?_
    subst hw
    exact (q.run_boxed v).bind fun a b h => .ok ⟨h, hsession⟩
  | equal left right =>
    refine (session.valueAt_boxed left).bind fun v v' ⟨_, hv⟩ => ?_
    refine (session.valueAt_boxed right).bind fun w w' ⟨_, hw⟩ => ?_
    subst hv hw
    exact .ok ⟨congrArg Answer.flag (v.numEq_boxed w).symm, hsession⟩

/-! ## What differs in storage alone -/

/-- The two values are the same but for the storage of arrays: wherever there is an array in one of
them, it may be kept as a column there and without one in the other. A column is of the element type
of its array, as is every column that the library makes (`Value.hasFittingStorage_keptByCalls`). -/
structure Value.Related (v w : Value) : Prop where
  alike : v.Alike w
  left : v.Everywhere HasFittingStorage
  right : w.Everywhere HasFittingStorage

/-- A value is related to itself where all its columns are of the right type. -/
theorem Value.Related.refl {v : Value} (h : v.Everywhere HasFittingStorage) : v.Related v :=
  ⟨.refl v, h, h⟩

/-- The columns in the defaults of the type are of the element types of their arrays. -/
def Ty.HasFittingDefaults (t : Ty) : Prop :=
  t.FieldsSatisfy fun f => f.default.Everywhere Value.HasFittingStorage

/-- The two calls are the same but for the storage that a new array starts with and for the storage
of arrays in the defaults of the types passed. -/
structure Call.Related (c c' : Call) : Prop where
  alike : c.boxed = c'.boxed
  left : ∀ t ∈ c.types, t.HasFittingDefaults
  right : ∀ t ∈ c'.types, t.HasFittingDefaults

theorem Call.Related.refl {c : Call} (h : ∀ t ∈ c.types, t.HasFittingDefaults) : c.Related c :=
  ⟨rfl, h, h⟩

/-- The two answers are the same but for the storage of arrays in the values and types given, and
but for what is said about storage itself. -/
inductive Answer.Related : Answer → Answer → Prop
  | values {vs ws : List Value} (h : List.Forall₂ Value.Related vs ws) :
    Related (.values vs) (.values ws)
  | flag (b : Bool) : Related (.flag b) (.flag b)
  | count (n : Nat) : Related (.count n) (.count n)
  | text (s : String) : Related (.text s) (.text s)
  | keys (ks : List String) : Related (.keys ks) (.keys ks)
  | scalar (s : Option Scalar) : Related (.scalar s) (.scalar s)
  | type {s t : Ty} (h : s.Alike t) : Related (.type s) (.type t)
  | document (j : Json) : Related (.document j) (.document j)
  | packed (b b' : Bool) : Related (.packed b) (.packed b')

/-- Lists that are alike and whose values all fit are related one by one. -/
theorem Value.forall₂_related {vs ws : List Value} (h : AllAlike vs ws)
    (hleft : ∀ v ∈ vs, v.Everywhere HasFittingStorage)
    (hright : ∀ w ∈ ws, w.Everywhere HasFittingStorage) : List.Forall₂ Related vs ws := by
  induction vs generalizing ws with
  | nil =>
    cases ws with
    | nil => exact .nil
    | cons w ws => cases h
  | cons v vs ih =>
    cases ws with
    | nil => cases h
    | cons w ws =>
      obtain ⟨hv, hvs⟩ := List.forall_mem_cons.mp hleft
      obtain ⟨hw, hws⟩ := List.forall_mem_cons.mp hright
      obtain ⟨hhead, hrest⟩ := List.cons.inj h
      exact .cons ⟨hhead, hv, hw⟩ (ih hrest hvs hws)

/-- And back: from values that are related one by one to lists that are alike. -/
theorem Value.allAlike_of_forall₂ {vs ws : List Value} (h : List.Forall₂ Related vs ws) :
    AllAlike vs ws ∧ (∀ v ∈ vs, v.Everywhere HasFittingStorage) ∧
      ∀ w ∈ ws, w.Everywhere HasFittingStorage := by
  induction h with
  | nil => exact ⟨rfl, List.forall_mem_nil _, List.forall_mem_nil _⟩
  | cons hhead _ ih =>
    obtain ⟨hrest, hvs, hws⟩ := ih
    refine ⟨?_, List.forall_mem_cons.mpr ⟨hhead.left, hvs⟩,
      List.forall_mem_cons.mpr ⟨hhead.right, hws⟩⟩
    exact congrArg₂ List.cons hhead.alike hrest

/-- Alike answers about values that fit are related. All but three kinds of answers have nothing in
them that could differ. -/
theorem Answer.related_of_alike {a b : Answer} (h : a.Alike b)
    (hleft : a.Everywhere Value.HasFittingStorage)
    (hright : b.Everywhere Value.HasFittingStorage) : a.Related b := by
  cases a with
  | values vs =>
    cases b with
    | values ws => exact .values (Value.forall₂_related (Answer.values.inj h) hleft hright)
    | _ => cases h
  | type s =>
    cases b with
    | type t => exact .type (Answer.type.inj h)
    | _ => cases h
  | packed c =>
    cases b with
    | packed c' => exact .packed c c'
    | _ => cases h
  | _ =>
    cases b <;> cases h
    constructor

/-! ## Sessions -/

/-- The storage of an array fits its element type after every call. -/
theorem Value.hasFittingStorage_keptByCalls :
    KeptByCalls HasFittingStorage fun _ => True where
  null := trivial
  scalar _ := trivial
  empty := TypedArray.fits_empty
  ofAny _ := trivial
  set := TypedArray.fits_of_set
  emptyMap _ := trivial
  put _ _ := trivial
  emptyBoxed _ := trivial
  ofJson _ _ := trivial
  copied _ _ := trivial
  object _ _ := trivial
  zeroRecord _ _ := trivial
  remove _ _ := trivial
  -- no other call touches the storage of an array without building it anew
  freezeArray {a} ha := by
    rw [TypedArray.freeze_eq]
    exact Storage.fits_freeze ha
  freezeMap _ := trivial

namespace Session

/-- What two related calls lead to in two related sessions is alike. -/
theorem outcomes_alike {c c' : Call} (hc : c.Related c') {s s' : Session}
    (hs : List.Forall₂ Value.Related s s') :
    SameOutcome OutcomesAlike (c.run s) (c'.run s') := by
  obtain ⟨halike, hleft, hright⟩ := Value.allAlike_of_forall₂ hs
  have hform : c.boxed.run s.boxed = c'.boxed.run s'.boxed :=
    congrArg₂ Call.run hc.alike halike
  -- both are compared with the one session that has no columns
  have hfirst := c.run_boxed fun v hv => (hleft v hv).self
  have hsecond := c'.run_boxed fun v hv => (hright v hv).self
  rw [← hform] at hsecond
  refine (hfirst.trans hsecond.symm).mono ?_
  rintro p q ⟨form, ⟨hanswer, hslots⟩, hanswer', hslots'⟩
  exact ⟨hanswer.trans hanswer'.symm, hslots.trans hslots'.symm⟩

/-- **One call of two related sessions**: the same answer or the same refusal, and related sessions
afterwards. -/
theorem step_related {c c' : Call} (hc : c.Related c') {s s' : Session}
    (hs : List.Forall₂ Value.Related s s') :
    SameOutcome Answer.Related (c.step s).1 (c'.step s').1 ∧
      List.Forall₂ Value.Related (c.step s).2 (c'.step s').2 := by
  obtain ⟨-, hleft, hright⟩ := Value.allAlike_of_forall₂ hs
  have hkept : ∀ p, c.run s = .ok p → p.1.Everywhere Value.HasFittingStorage ∧
      ∀ v ∈ p.2, v.Everywhere Value.HasFittingStorage := fun p hp =>
    Value.hasFittingStorage_keptByCalls.step
      (fun t ht => ⟨fun _ _ => trivial, hc.left t ht⟩) hleft hp
  have hkept' : ∀ p, c'.run s' = .ok p → p.1.Everywhere Value.HasFittingStorage ∧
      ∀ v ∈ p.2, v.Everywhere Value.HasFittingStorage := fun p hp =>
    Value.hasFittingStorage_keptByCalls.step
      (fun t ht => ⟨fun _ _ => trivial, hc.right t ht⟩) hright hp
  have houtcomes := (outcomes_alike hc hs).and hkept hkept'
  -- alike and kept on both sides: together that is being related
  rw [Call.step_eq, Call.step_eq]
  cases houtcomes.ok_or_error with
  | inl h =>
    obtain ⟨p, q, hp, hq, ⟨hanswer, hslots⟩, ⟨hleftAnswer, hleftSlots⟩, hright'⟩ := h
    rw [hp, hq]
    exact ⟨.ok (Answer.related_of_alike hanswer hleftAnswer hright'.1),
      Value.forall₂_related hslots hleftSlots hright'.2⟩
  | inr h =>
    obtain ⟨e, hp, hq⟩ := h
    rw [hp, hq]
    exact ⟨.error e, hs⟩

/-- **Storage is unobservable.** Related calls on related sessions give, call by call, related
answers or the same refusal, and related sessions at the end. -/
theorem run_related {calls calls' : List Call} (hcalls : List.Forall₂ Call.Related calls calls')
    {s s' : Session} (hs : List.Forall₂ Value.Related s s') :
    List.Forall₂ (SameOutcome Answer.Related) (run calls s).1 (run calls' s').1 ∧
      List.Forall₂ Value.Related (run calls s).2 (run calls' s').2 := by
  -- the sessions that the first calls lead to are related again, which is all that the rest needs
  induction hcalls generalizing s s' with
  | nil => exact ⟨.nil, hs⟩
  | cons hc _ ih =>
    obtain ⟨hfirst, hnext⟩ := step_related hc hs
    obtain ⟨hanswers, hlast⟩ := ih hnext
    exact ⟨.cons hfirst hanswers, hlast⟩

end Session

/-- A record with an array as the default of its only field. -/
def RecordTy.counter (counts : TypedArray) : RecordTy where
  name := "Counter"
  fields := [("counts", ⟨.array .int, .array counts⟩)]
  rest := none

/-- A session that fills a new array from the first slot, asks about it and converts it, and
compares it with the array in a default. -/
def Session.counter (fresh : Fresh) (counts : TypedArray) : List Call :=
  [.fresh fresh, .write .push 1 0, .ask .text 1, .ask .isPacked 1, .read (.encodeArray 4) 1,
    .fresh (.zero (.record (.counter counts))), .read (.entry "counts") 3, .equal 1 4]

/-- Two runs of a session, with and without a column, one of them with a column in a default. The
fourth answer is the only one in which they differ. -/
theorem Session.run_related_counter :
    (run (counter (.emptyArray .int) ⟨.int, .packed (.ints [7]), false⟩) [.int 7]).1[3]? =
        some (.ok (.packed true)) ∧
      (run (counter (.emptyBoxed .int) ⟨.int, .boxed [.int 7], false⟩) [.int 7]).1[3]? =
        some (.ok (.packed false)) ∧
      List.Forall₂ (SameOutcome Answer.Related)
        (run (counter (.emptyArray .int) ⟨.int, .packed (.ints [7]), false⟩) [.int 7]).1
        (run (counter (.emptyBoxed .int) ⟨.int, .boxed [.int 7], false⟩) [.int 7]).1 := by
  have hpacked : (Value.array ⟨.int, .packed (.ints [7]), false⟩).Everywhere
      Value.HasFittingStorage := by
    refine Value.everywhere_array.mpr ⟨rfl, ?_⟩
    simp [Value.HasFittingStorage, TypedArray.toList, Storage.toList, Column.toScalars]
  have hunpacked : (Value.array ⟨.int, .boxed [.int 7], false⟩).Everywhere
      Value.HasFittingStorage := by
    refine Value.everywhere_array.mpr ⟨trivial, ?_⟩
    simp [Value.HasFittingStorage, TypedArray.toList, Storage.toList, Value.int]
  have hnew : Call.Related (.fresh (.emptyArray .int)) (.fresh (.emptyBoxed .int)) := by
    refine ⟨rfl, ?_, ?_⟩
    · simp [Call.types, Fresh.types, Ty.HasFittingDefaults, Ty.FieldsSatisfy]
    · simp [Call.types, Fresh.types, Ty.HasFittingDefaults, Ty.FieldsSatisfy]
  have hzero : Call.Related
      (.fresh (.zero (.record (.counter ⟨.int, .packed (.ints [7]), false⟩))))
      (.fresh (.zero (.record (.counter ⟨.int, .boxed [.int 7], false⟩)))) := by
    refine ⟨rfl, ?_, ?_⟩
    · simpa [Call.types, Fresh.types, Ty.HasFittingDefaults, Ty.FieldsSatisfy, RecordTy.counter]
        using hpacked
    · simpa [Call.types, Fresh.types, Ty.HasFittingDefaults, Ty.FieldsSatisfy, RecordTy.counter]
        using hunpacked
  -- the calls in between pass no types, so they are related to themselves
  have hsame {c : Call} (htypes : c.types = []) : c.Related c :=
    .refl (htypes ▸ List.forall_mem_nil _)
  have hcalls : List.Forall₂ Call.Related
      (counter (.emptyArray .int) ⟨.int, .packed (.ints [7]), false⟩)
      (counter (.emptyBoxed .int) ⟨.int, .boxed [.int 7], false⟩) :=
    .cons hnew (.cons (hsame rfl) (.cons (hsame rfl) (.cons (hsame rfl) (.cons (hsame rfl)
      (.cons hzero (.cons (hsame rfl) (.cons (hsame rfl) .nil)))))))
  have hstart : List.Forall₂ Value.Related [.int 7] [.int 7] :=
    .cons (.refl (by simp [Value.int, Value.HasFittingStorage])) .nil
  exact ⟨rfl, rfl, (run_related hcalls hstart).1⟩

end TypedJson

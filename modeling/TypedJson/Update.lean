/-!
# TypedJson — updates in place

A call that changes a container works on it in place. It answers or it fails, and either way there
is a state afterwards, with all that was written up to that point: nothing is rolled back. That a
failed call leaves no trace is therefore a property that an update may or may not have
(`AllOrNothing`). The updates of this library have it because each of them makes all its checks
before its one write.

* **`answer`** — what a call answers, and the state that it leaves;
* **`outcome`**, **`after`** — what a caller sees who keeps the state of a call that succeeded only;
* **`look`**, **`within`**, **`relabel`** — a check, work on a part of the state, and errors under
  another name;
* **`AllOrNothing`** — a failure leaves the state as it was, with one lemma for each way to build an
  update.
-/

namespace TypedJson

/-- A call that works on a state in place: an answer or an error, and the state that it leaves. -/
abbrev Update (ε σ α : Type) := EStateM ε σ α

namespace Update

variable {ε ε' σ τ α β : Type}

/-! ### Views -/

/-- What a call answers, and the state that it leaves, also where it failed. -/
def answer (u : Update ε σ α) (s : σ) : Except ε α × σ :=
  match u.run s with
  | .ok a after => (.ok a, after)
  | .error e after => (.error e, after)

/-- The state after a call that succeeded and what it answered, or the error. -/
def outcome (u : Update ε σ α) (s : σ) : Except ε (σ × α) :=
  match u.run s with
  | .ok a after => .ok (after, a)
  | .error e _ => .error e

/-- The state after a call that succeeded. -/
def after (u : Update ε σ α) (s : σ) : Except ε σ := (u.outcome s).map Prod.fst

/-! ### Building updates -/

/-- Reads the state, and may fail. -/
def look (f : σ → Except ε α) : Update ε σ α := fun s =>
  match f s with
  | .ok a => .ok a s
  | .error e => .error e s

/-- Works in place on a part of the state, if it is there. What is written to the part is in the
state afterwards, also where the work failed half way. -/
def within (part? : σ → Option τ) (put : σ → τ → σ) (u : Update ε τ α) (absent : Except ε α) :
    Update ε σ α := fun s =>
  match part? s, absent with
  | some t, _ =>
    match u.run t with
    | .ok a after => .ok a (put s after)
    | .error e after => .error e (put s after)
  | none, .ok a => .ok a s
  | none, .error e => .error e s

/-- The same work, with its errors under another name. -/
def relabel (f : ε → ε') (u : Update ε σ α) : Update ε' σ α := fun s =>
  match u.run s with
  | .ok a after => .ok a after
  | .error e after => .error (f e) after

/-- How each of the three runs. All that follows goes by these equations and the one for `>>=`. -/
theorem look_run (f : σ → Except ε α) (s : σ) :
    (look f).run s = match f s with
      | .ok a => .ok a s
      | .error e => .error e s :=
  rfl

theorem within_run (part? : σ → Option τ) (put : σ → τ → σ) (u : Update ε τ α)
    (absent : Except ε α) (s : σ) :
    (within part? put u absent).run s = match part? s, absent with
      | some t, _ => match u.run t with
        | .ok a after => .ok a (put s after)
        | .error e after => .error e (put s after)
      | none, .ok a => .ok a s
      | none, .error e => .error e s :=
  rfl

theorem relabel_run (f : ε → ε') (u : Update ε σ α) (s : σ) :
    (relabel f u).run s = match u.run s with
      | .ok a after => .ok a after
      | .error e after => .error (f e) after :=
  rfl

/-! ### Outcomes -/

/-- A check leaves the state for the next step as it is. -/
theorem outcome_look (f : σ → Except ε α) (s : σ) :
    outcome (look f) s = (f s).map fun a => (s, a) := by
  rw [outcome, look_run]
  cases f s <;> rfl

/-- Where only success matters, one step after the other is one outcome after the other. -/
theorem outcome_bind (u : Update ε σ α) (g : α → Update ε σ β) (s : σ) :
    outcome (u >>= g) s = u.outcome s >>= fun r => (g r.2).outcome r.1 := by
  rw [outcome, outcome, EStateM.run_bind]
  cases u.run s <;> rfl

/-- After a check the next step starts from the same state. -/
theorem outcome_look_bind (f : σ → Except ε α) (g : α → Update ε σ β) (s : σ) :
    outcome (look f >>= g) s = f s >>= fun a => (g a).outcome s := by
  rw [outcome_bind, outcome_look]
  cases f s <;> rfl

/-- The state does not depend on the form of the answer. -/
theorem outcome_map (f : α → β) (u : Update ε σ α) (s : σ) :
    outcome (f <$> u) s = (u.outcome s).map fun r => (r.1, f r.2) := by
  rw [map_eq_pure_bind, outcome_bind]
  cases u.outcome s <;> rfl

/-- Work on a part, seen from outside: the part goes back into the state that it was taken from. -/
theorem outcome_within (part? : σ → Option τ) (put : σ → τ → σ) (u : Update ε τ α)
    (absent : Except ε α) (s : σ) :
    outcome (within part? put u absent) s = match part? s with
      | none => absent.map fun a => (s, a)
      | some t => (u.outcome t).map fun r => (put s r.1, r.2) := by
  rw [outcome, within_run]
  cases part? s with
  | none => cases absent <;> rfl
  | some t =>
    simp only [outcome]
    cases u.run t <;> rfl

/-- Other names for errors are all that is seen. -/
theorem outcome_relabel (f : ε → ε') (u : Update ε σ α) (s : σ) :
    outcome (relabel f u) s = (u.outcome s).mapError f := by
  rw [outcome, outcome, relabel_run]
  cases u.run s <;> rfl

/-! ### Failures without a trace -/

/-- A call that fails leaves the state as it was. -/
def AllOrNothing (u : Update ε σ α) : Prop := ∀ s e after, u.run s = .error e after → after = s

/-- Under this property the state that a call leaves follows from its outcome. -/
theorem AllOrNothing.answer_eq {u : Update ε σ α} (hu : u.AllOrNothing) (s : σ) :
    u.answer s = match u.outcome s with
      | .ok (after, a) => (.ok a, after)
      | .error e => (.error e, s) := by
  unfold answer outcome
  -- the two sides differ in the state beside an error alone, and there it is the property
  cases h : u.run s with
  | ok a after => rfl
  | error e after => rw [hu s e after h]

-- without this property the state is what the write left: here the check comes too late
example :
    answer (modify (· + 1) >>= fun _ => look fun _ => .error () : Update Unit Nat Unit) 0 =
      (.error (), 1) :=
  rfl

/-- A check writes nothing. -/
theorem allOrNothing_look (f : σ → Except ε α) : (look f).AllOrNothing := by
  intro s e after h
  rw [look_run] at h
  cases hf : f s with
  | ok a => rw [hf] at h; cases h
  | error e => rw [hf] at h; cases h; rfl

/-- A write cannot fail, so it may stand alone. -/
theorem allOrNothing_modifyGet (f : σ → α × σ) :
    (modifyGet f : Update ε σ α).AllOrNothing :=
  fun _ _ _ h => nomatch h

/-- A check may stand before anything. -/
theorem AllOrNothing.look_bind {g : α → Update ε σ β} (f : σ → Except ε α)
    (hg : ∀ a, (g a).AllOrNothing) : (look f >>= g).AllOrNothing := by
  intro s e after h
  rw [EStateM.run_bind, look_run] at h
  cases hf : f s with
  -- the check passed and the state is still `s`
  | ok a => rw [hf] at h; exact hg a s e after h
  | error e => rw [hf] at h; cases h; rfl

/-- A write may stand last, since it cannot fail. -/
theorem AllOrNothing.bind_modifyGet {u : Update ε σ α} (hu : u.AllOrNothing)
    (f : α → σ → β × σ) : (u >>= fun a => modifyGet (f a)).AllOrNothing := by
  intro s e after h
  rw [EStateM.run_bind] at h
  cases hrun : u.run s with
  -- no error can come from the write
  | ok a between => rw [hrun] at h; cases h
  | error e left => rw [hrun] at h; cases h; exact hu s _ _ hrun

/-- The answer may be put in another form. -/
theorem AllOrNothing.map {u : Update ε σ α} (hu : u.AllOrNothing) (f : α → β) :
    (f <$> u : Update ε σ β).AllOrNothing := by
  intro s e after h
  rw [map_eq_pure_bind, EStateM.run_bind] at h
  cases hrun : u.run s with
  | ok a left => rw [hrun] at h; cases h
  | error e left => rw [hrun] at h; cases h; exact hu s _ _ hrun

/-- Work on a part leaves no trace if putting an unchanged part back changes nothing. -/
theorem AllOrNothing.within {part? : σ → Option τ} {put : σ → τ → σ} {u : Update ε τ α}
    (hu : u.AllOrNothing) (hput : ∀ s t, part? s = some t → put s t = s) (absent : Except ε α) :
    (within part? put u absent).AllOrNothing := by
  intro s e after h
  rw [within_run] at h
  cases hpart : part? s with
  | none =>
    rw [hpart] at h
    cases absent <;> cases h
    rfl
  | some t =>
    rw [hpart] at h
    cases hrun : u.run t with
    | ok a left => simp only [hrun] at h; cases h
    | error e left =>
      simp only [hrun] at h
      cases h
      -- the part is as it was, so what is put back is what was there
      rw [hu t _ _ hrun]
      exact hput s t hpart

/-- A name does not bring anything back or undo anything. -/
theorem AllOrNothing.relabel {u : Update ε σ α} (hu : u.AllOrNothing) (f : ε → ε') :
    (relabel f u).AllOrNothing := by
  intro s e after h
  rw [relabel_run] at h
  cases hrun : u.run s with
  | ok a left => rw [hrun] at h; cases h
  | error e left => rw [hrun] at h; cases h; exact hu s _ _ hrun

end Update

end TypedJson

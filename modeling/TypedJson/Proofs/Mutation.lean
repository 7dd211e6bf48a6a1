import TypedJson.Proofs.Session

/-!
# TypedJson — mutations of one value

A session changes values by two kinds of calls, edits and writes. Apart from freezing, each of them
changes the contents of one container, and a program makes them one after the other on the same one,
whether or not they succeed:

* **`Mutation`** — such a call, with the value that it brings in;
* **`Value.mutate`** — a sequence of them on one value: what each of them answers, and the value
  that is there at the end;
* **`Value.mutate_cons`** — one step of it;
* **`Mutation.answered`** — the calls among them that succeeded.
-/

namespace TypedJson

/-- A call that changes the contents of a value. -/
inductive Mutation where
  | write (w : Write) (x : Value)
  | remove (key : String)
  | removeField (key : String)

namespace Mutation

/-- The change of the value, and the values that the call gives. -/
def perform : Mutation → Update Refusal Value (List Value)
  | write w x => w.perform x
  | remove key => Edit.perform (.remove key)
  | removeField key => Edit.perform (.removeField key)

/-- The value after the call, and the values that the call gives. -/
def run (c : Mutation) (v : Value) : Except Refusal (Value × List Value) := c.perform.outcome v

/-- A mutation that brings in a value is that write. -/
theorem run_write (w : Write) (x v : Value) : (write w x).run v = w.run v x := rfl

theorem run_remove (key : String) (v : Value) : (remove key).run v = Edit.run (.remove key) v := rfl

theorem run_removeField (key : String) (v : Value) :
    (removeField key).run v = Edit.run (.removeField key) v := rfl

/-- **A refused call leaves the value as it was.** -/
theorem perform_allOrNothing (c : Mutation) : c.perform.AllOrNothing := by
  cases c with
  | write w x => exact w.perform_allOrNothing x
  | remove key => exact Edit.perform_allOrNothing (.remove key)
  | removeField key => exact Edit.perform_allOrNothing (.removeField key)

/-- What a call answers, and the value that it leaves. -/
def step (c : Mutation) (v : Value) : Except Refusal (List Value) × Value := c.perform.answer v

/-- What a step leaves behind follows from the outcome. -/
theorem step_eq (c : Mutation) (v : Value) :
    c.step v = match c.run v with
      | .ok (after, vs) => (.ok vs, after)
      | .error refusal => (.error refusal, v) := by
  rw [step, c.perform_allOrNothing.answer_eq, run]
  cases c.perform.outcome v <;> rfl

theorem step_of_ok {c : Mutation} {v after : Value} {vs : List Value}
    (h : c.run v = .ok (after, vs)) : c.step v = (.ok vs, after) := by
  rw [step_eq, h]

theorem step_of_error {c : Mutation} {v : Value} {refusal : Refusal}
    (h : c.run v = .error refusal) : c.step v = (.error refusal, v) := by
  rw [step_eq, h]

/-- The calls of a sequence that succeeded, going by what was answered. -/
def answered (calls : List Mutation) (outcomes : List (Except Refusal (List Value))) :
    List Mutation :=
  ((calls.zip outcomes).filter (·.2.isOk)).map Prod.fst

end Mutation

/-- A sequence of mutations of one value: what each of them answers, and the value at the end. -/
def Value.mutate : List Mutation → Value → List (Except Refusal (List Value)) × Value
  | [], v => ([], v)
  | c :: rest, v =>
    let (outcome, next) := c.step v
    let (outcomes, last) := Value.mutate rest next
    (outcome :: outcomes, last)

/-- The next call starts from what the call before it left, accepted or not. -/
theorem Value.mutate_cons (c : Mutation) (rest : List Mutation) (v : Value) :
    Value.mutate (c :: rest) v =
      ((c.step v).1 :: (Value.mutate rest (c.step v).2).1,
        (Value.mutate rest (c.step v).2).2) :=
  rfl

end TypedJson

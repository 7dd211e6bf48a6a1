import TypedJson.Proofs.Filling

/-!
# TypedJson — a conversion reports its first failure

Positions that fail are spoken of without the conversion (`Fails`), and a conversion is a loop over
places (`Ty.sameOutcome_decode`). Here the two are brought together:

* **`Fails.decode_ne_ok`** — where a conversion succeeds no position fails, so none fails in a place
  that was filled;
* **`FirstFailure.of_place`** — hence the first failure of the first place that is not filled is the
  first of all;
* **`Ty.reports`** — by induction on the type, that is what every conversion reports;
* **`decode_failure_is_first`** — the same for the error that a caller gets, with its label.
-/

namespace TypedJson

/-! ## Success -/

theorem Origin.gives_of_outcome {origin : Origin} {depth : Depth} {w : Value}
    (h : origin.outcome depth = .ok w) : origin.Gives w := by
  cases origin with
  | converted t v => exact ⟨depth, h⟩
  | taken v => exact (Except.ok.inj h).symm

/-- What comes from an origin does not depend on the depth. -/
theorem Origin.Gives.eq_of_outcome {origin : Origin} {depth : Depth} {w w' : Value}
    (hgives : origin.Gives w) (h : origin.outcome depth = .ok w') : w = w' := by
  cases origin with
  | converted t v =>
    obtain ⟨depth', h'⟩ := hgives
    exact t.decode_agree depth' depth v w w' h' h
  | taken v => exact hgives.trans (Except.ok.inj h)

/-- A place is only filled if what comes from its origin is converted and not rejected. -/
theorem Place.exists_decode_of_fill {place : Place} {inner : Depth} {s : Ty} {x : Value}
    (hfill : place.fill inner = .ok ()) (horigin : place.origin = .converted s x) :
    ∃ w, s.decode inner x = .ok w := by
  obtain ⟨w, houtcome, -⟩ := fill_eq_ok_iff.mp hfill
  rw [horigin] at houtcome
  exact ⟨w, houtcome⟩

/-- A filled place does not reject what its origin gives, under whatever depth that is. -/
theorem Place.rejection?_of_fill {place : Place} {inner : Depth} {w : Value}
    (hfill : place.fill inner = .ok ()) (hgives : place.origin.Gives w) :
    place.rejection? w = none := by
  obtain ⟨w', houtcome, haccepted⟩ := fill_eq_ok_iff.mp hfill
  rwa [← hgives.eq_of_outcome houtcome] at haccepted

/-- A conversion that succeeds filled all places. -/
theorem Ty.fill_of_decode_eq_ok {t : Ty} {v w : Value} {depth : Depth} {i : Nat} {place : Place}
    (hplace : (t.places v)[i]? = some place) (hok : t.decode depth v = .ok w) :
    ∃ inner, place.fill inner = .ok () := by
  rcases (sameOutcome_decode (opens_of_place hplace) depth).ok_or_error with
    ⟨-, ⟨⟩, -, hloop, -⟩ | ⟨e, herror, -⟩
  · obtain ⟨inner, -, hfilled⟩ := bind_eq_ok_iff.mp hloop
    exact ⟨inner, forM_eq_ok_iff.mp hfilled place (List.mem_of_getElem? hplace)⟩
  · rw [hok] at herror
    cases herror

/-- **Where a conversion succeeds no position fails.** -/
theorem Fails.decode_ne_ok {t : Ty} {v : Value} {path : List Step} {e : Error}
    (h : Fails t v path e)
    (depth : Depth) (w : Value) : t.decode depth v ≠ .ok w := by
  -- on the way to the position; the depths on that way are those of the conversion, whatever they
  -- are
  induction h generalizing depth w with
  | mismatch h =>
    rw [Ty.decode_of_mismatch? h]
    exact fun h => nomatch h
  | member hnull honly _ ih =>
    intro hok
    rcases Ty.decode_union_eq_ok_iff.mp hok with ⟨hnull', -⟩ | ⟨-, only, honly', hok⟩
    · exact absurd (hnull.symm.trans hnull') Bool.false_ne_true
    · obtain ⟨⟩ := honly.symm.trans honly'
      exact ih depth w hok
  | inside hplace horigin _ ih =>
    intro hok
    obtain ⟨inner, hfill⟩ := Ty.fill_of_decode_eq_ok hplace hok
    obtain ⟨x, hx⟩ := Place.exists_decode_of_fill hfill horigin
    exact ih inner x hx
  | rejected hplace hgives hrejected =>
    intro hok
    obtain ⟨inner, hfill⟩ := Ty.fill_of_decode_eq_ok hplace hok
    rw [Place.rejection?_of_fill hfill hgives] at hrejected
    cases hrejected

/-- A place that is filled does not fail. -/
theorem Place.not_failsAt_of_fill {place : Place} {inner : Depth}
    (hfill : place.fill inner = .ok ())
    {path : List Step} {e : Error} : ¬ place.FailsAt path e := by
  intro h
  -- a failure inside would have stopped the conversion of the value, a rejection the check of it
  cases h with
  | inside horigin h =>
    obtain ⟨w, hw⟩ := exists_decode_of_fill hfill horigin
    exact h.decode_ne_ok inner w hw
  | rejected hgives h =>
    rw [rejection?_of_fill hfill hgives] at h
    cases h

/-! ## The first failure -/

/-- The first position in the place that fails. -/
structure Place.FailsFirst (place : Place) (path : List Step) (e : Error) : Prop where
  fails : place.FailsAt path e
  first : ∀ path' e', place.FailsAt path' e' → path' = path ∧ e' = e ∨ Before path path'

/-- Where the part of the source in a place has a first failure, that is the one of the place. -/
theorem Place.FailsFirst.inside {place : Place} {s : Ty} {x : Value} {path : List Step} {e : Error}
    (horigin : place.origin = .converted s x) (hfirst : FirstFailure s x path e) :
    place.FailsFirst path e := by
  refine ⟨.inside horigin hfirst.fails, fun path' e' h => ?_⟩
  cases h with
  | inside horigin' h =>
    obtain ⟨⟩ := horigin.symm.trans horigin'
    exact hfirst.first path' e' h
  | rejected hgives _ =>
    -- there is nothing to reject, since the part of the source is never converted
    rw [horigin] at hgives
    obtain ⟨depth, hok⟩ := hgives
    exact absurd hok (hfirst.fails.decode_ne_ok depth _)

/-- Where a place rejects its value, there is no other failure in it. -/
theorem Place.FailsFirst.rejected {place : Place} {inner : Depth} {w : Value} {e : Error}
    (houtcome : place.origin.outcome inner = .ok w) (hrejected : place.rejection? w = some e) :
    place.FailsFirst [] e := by
  refine ⟨.rejected (Origin.gives_of_outcome houtcome) hrejected, fun path' e' h => .inl ?_⟩
  cases h with
  | inside horigin h =>
    rw [horigin] at houtcome
    exact absurd houtcome (h.decode_ne_ok inner w)
  | rejected hgives h =>
    rw [hgives.eq_of_outcome houtcome, hrejected] at h
    exact ⟨rfl, (Option.some.inj h).symm⟩

/-- In a container, the first failure of the first place that fails is the first one of all. -/
theorem FirstFailure.of_place {t : Ty} {v : Value} {i : Nat} {place : Place} {inner : Depth}
    {path : List Step} {e : Error} (hplace : (t.places v)[i]? = some place)
    (hbefore : ∀ (j : Nat) (other : Place), j < i → (t.places v)[j]? = some other →
      other.fill inner = .ok ())
    (hfirst : place.FailsFirst path e) : FirstFailure t v (⟨i, place.label?⟩ :: path) e := by
  refine ⟨.of_place hplace hfirst.fails, fun path' e' h => ?_⟩
  obtain ⟨j, other, rest, hother, rfl, hfails⟩ := h.exists_place (Ty.opens_of_place hplace)
  -- the other failure is in an earlier place, in the same one or in a later one
  rcases Nat.lt_trichotomy j i with hlt | rfl | hgt
  · exact absurd hfails (Place.not_failsAt_of_fill (hbefore j other hlt hother))
  · obtain rfl : place = other := Option.some.inj (hplace.symm.trans hother)
    rcases hfirst.first rest e' hfails with ⟨rfl, rfl⟩ | hafter
    · exact .inl ⟨rfl, rfl⟩
    · exact .inr (.follow hafter)
  · exact .inr (.part hgt)

/-! ## Reports -/

/-- The conversion stops at the depth limit or reports the first failure. -/
def Reports (t : Ty) (v : Value) : Prop :=
  ∀ (depth : Depth) (err : Error), t.decode depth v = .error err →
    err = .depthLimit depth.limit ∨ ∃ path e, FirstFailure t v path e ∧ err = e.under path

/-- A place that is not filled reports its first failure, under its label. -/
theorem Place.reports {place : Place} {inner : Depth} {err : Error}
    (hpart : ∀ s x, place.origin = .converted s x → Reports s x)
    (hfill : place.fill inner = .error err) :
    err = .depthLimit inner.limit ∨
      ∃ path e, place.FailsFirst path e ∧ err = (e.under path).passedOn place.label? := by
  obtain ⟨e, rfl, houtcome | ⟨w, houtcome, hrejected⟩⟩ := fill_eq_error hfill
  · -- there is no value for the place
    cases horigin : place.origin with
    | taken x =>
      rw [horigin] at houtcome
      cases houtcome
    | converted s x =>
      rw [horigin] at houtcome
      rcases hpart s x horigin inner e houtcome with rfl | ⟨path, e, hfirst, rfl⟩
      · exact .inl (by cases place.label? <;> rfl)
      · exact .inr ⟨path, e, .inside horigin hfirst, rfl⟩
  · -- the container rejects the value
    exact .inr ⟨[], e, .rejected houtcome hrejected, rfl⟩

/-- **A container reports the first failure** if the conversions of its parts do. -/
theorem Reports.of_places {t : Ty} {v : Value} (hopens : t.opens v = true)
    (hparts : ∀ place ∈ t.places v, ∀ s x, place.origin = .converted s x → Reports s x) :
    Reports t v := by
  intro depth err herr
  -- the conversion has the outcome of the loop over the places, so the error is the one of the
  -- loop
  have hloop : (depth.enter >>= fun inner => forM (t.places v) (·.fill inner)) = .error err := by
    rcases (Ty.sameOutcome_decode hopens depth).ok_or_error with ⟨w, -, hok, -⟩ | ⟨e, he, hloop⟩
    · rw [hok] at herr
      cases herr
    · cases he.symm.trans herr
      exact hloop
  cases henter : depth.enter with
  | error e =>
    rw [henter] at hloop
    cases hloop
    exact .inl (Depth.enter_eq_error henter)
  | ok inner =>
    rw [henter] at hloop
    obtain ⟨-, rfl⟩ := Depth.enter_eq_ok_iff.mp henter
    -- the loop stopped at the first place that could not be filled: the places before it were
    obtain ⟨i, place, hplace, hfill, hbefore⟩ := forM_eq_error hloop
    rcases Place.reports (hparts place (List.mem_of_getElem? hplace)) hfill with
      rfl | ⟨path, e, hfirst, rfl⟩
    · exact .inl rfl
    · have hplain : e.IsPlain := (Fails.of_place hplace hfirst.fails).isPlain
      exact .inr ⟨⟨i, place.label?⟩ :: path, e, .of_place hplace hbefore hfirst,
        Error.passedOn_under hplain ⟨i, place.label?⟩ path⟩

/-- It is left to see what happens to values that match as a whole. -/
theorem Reports.of_match {t : Ty} {v : Value} (h : t.mismatch? v = none → Reports t v) :
    Reports t v := by
  cases hmismatch : t.mismatch? v with
  | none => exact h hmismatch
  | some e =>
    intro depth err herr
    rw [Ty.decode_of_mismatch? hmismatch] at herr
    cases herr
    refine .inr ⟨[], e, ⟨.mismatch hmismatch, fun path e' hfails => .inl ?_⟩, rfl⟩
    exact hfails.eq_of_mismatch? hmismatch

theorem Reports.of_ok {t : Ty} {v w : Value} (h : ∀ depth, t.decode depth v = .ok w) :
    Reports t v := by
  intro depth err herr
  rw [h] at herr
  cases herr

/-- A union reports what its only member reports. -/
theorem Reports.of_member {members : List Ty} {nullable : Bool} {only : Ty} {v : Value}
    (hnull : (v.isNull && nullable) = false) (honly : Ty.nonNull members = [only])
    (h : Reports only v) : Reports (.union members nullable) v := by
  intro depth err herr
  rw [Ty.decode, hnull, if_neg Bool.false_ne_true, Ty.decodeOnly_eq, honly] at herr
  rcases h depth err herr with hcut | ⟨path, e, hfirst, rfl⟩
  · exact .inl hcut
  · refine .inr ⟨path, e, ⟨.member hnull honly hfirst.fails, fun path' e' hfails => ?_⟩, rfl⟩
    cases hfails with
    | mismatch h => simp [Ty.mismatch?, honly] at h
    | member _ honly' h =>
      obtain ⟨⟩ := honly.symm.trans honly'
      exact hfirst.first path' e' h
    | inside hplace _ _ => cases Ty.opens_of_place hplace
    | rejected hplace _ _ => cases Ty.opens_of_place hplace

/-- **Every conversion reports the first failure.** -/
theorem Ty.reports (t : Ty) (v : Value) : Reports t v := by
  -- on the type: a place holds a value read at a smaller type, whatever the value
  induction t generalizing v with
  | scalar k =>
    refine .of_match fun hmatch depth err herr => ?_
    rcases ScalarKind.decode_of_converts hmatch depth with ⟨w, hok⟩ | hcut
    · cases hok.symm.trans herr
    · cases hcut.symm.trans herr
      exact .inl rfl
  | json =>
    refine .of_match fun hmatch => .of_ok (w := v) fun depth => ?_
    have hadmits : Ty.json.admits v = true := by simpa [mismatch?] using hmatch
    exact if_pos hadmits
  | any => exact .of_ok fun _ => rfl
  | null =>
    refine .of_match fun hmatch => .of_ok (w := .null) fun depth => ?_
    have hnull : v.isNull = true := by simpa [mismatch?] using hmatch
    exact if_pos hnull
  | union members nullable ih =>
    refine .of_match fun hmatch => ?_
    cases hnull : v.isNull && nullable with
    | true =>
      refine .of_ok (w := .null) fun depth => ?_
      rw [decode, hnull, if_pos rfl]
    | false =>
      have hlength : (nonNull members).length = 1 := by simpa [mismatch?, hnull] using hmatch
      -- a union is read through its only alternative, which takes no step in the path
      obtain ⟨only, honly⟩ := List.length_eq_one_iff.mp hlength
      exact .of_member hnull honly (ih only (mem_of_nonNull honly) v)
  | array element ih =>
    refine .of_match fun hmatch => .of_places (by simpa [mismatch?, opens] using hmatch) ?_
    intro place hplace s x horigin
    obtain ⟨p, rfl⟩ := exists_of_mem_places_array hplace
    cases horigin
    exact ih p.1
  | openMap =>
    refine .of_match fun hmatch => .of_places (by simpa [mismatch?, opens] using hmatch) ?_
    intro place hplace s x horigin
    obtain ⟨e, rfl⟩ := exists_of_mem_places_map hplace
    cases horigin
  | mapOf t ih =>
    refine .of_match fun hmatch => .of_places (by simpa [mismatch?, opens] using hmatch) ?_
    intro place hplace s x horigin
    obtain ⟨e, rfl⟩ := exists_of_mem_places_map hplace
    obtain rfl : s = t := Ty.eq_of_entryOrigin horigin
    exact ih x
  | record r ih _ =>
    refine .of_match fun hmatch => .of_places (by simpa [mismatch?, opens] using hmatch) ?_
    intro place hplace s x horigin
    obtain ⟨source, f, hf, rfl⟩ := exists_of_mem_places_record hplace
    obtain rfl : s = f.2.ty := Field.eq_of_origin horigin
    exact ih f hf x

/-- **A conversion that fails points at the first failure.** If it is not the depth limit that stops
a conversion, there is a position that fails before all others. The root of the error is the failure
of that position, and the error is that failure under the innermost label on the way there, or the
failure itself if there is no label on the way. And where a conversion gives a value, no position
fails. -/
theorem decode_failure_is_first :
    (∀ (t : Ty) (v : Value) (limit : Nat) (err : Error), t.decode (.root limit) v = .error err →
      (∀ n, err ≠ .depthLimit n) →
        ∃ path e, FirstFailure t v path e ∧ err.root = e ∧ err = e.under path ∧ e.IsPlain) ∧
    ∀ (t : Ty) (v w : Value) (limit : Nat), t.decode (.root limit) v = .ok w →
      ∀ path e, ¬ Fails t v path e := by
  constructor
  · intro t v limit err herr hlimit
    rcases t.reports v (.root limit) err herr with hcut | ⟨path, e, hfirst, rfl⟩
    · exact absurd hcut (hlimit _)
    · have hplain : e.IsPlain := hfirst.fails.isPlain
      exact ⟨path, e, hfirst, Error.root_under hplain path, rfl, hplain⟩
  · intro t v w limit hok path e h
    exact h.decode_ne_ok _ w hok

/-- A record with an array of maps to integers. -/
def RecordTy.survey : RecordTy :=
  ⟨"Survey", [("title", ⟨.string, .string ""⟩), ("rows", ⟨.array (.mapOf .int), .null⟩)], none⟩

/-- The second row has two entries that are no integers. -/
def Value.survey : Value :=
  .map ⟨.json, [("rows", .array (.ofBoxed .json
    [.map ⟨.json, [("a", .int 1)], false⟩,
      .map ⟨.json, [("b", .int 2), ("c", .boolean true), ("d", .null)], false⟩])),
    ("title", .string "x")], false⟩

/-- Two entries of the second row are no integers; the one reported is the first of them, under its
key. A map of integers has no failing position. -/
theorem decode_failure_is_first_survey :
    (∃ path e, FirstFailure (.record .survey) .survey path e ∧
      (Ty.record .survey).decode (.root 8) .survey = .error (e.under path) ∧
      e = .notCastable "int" "boolean" ∧ e.under path = .inField "c" e) ∧
    ∀ path e, ¬ Fails (.mapOf .int) (.map ⟨.json, [("a", .int 1)], false⟩) path e := by
  have herr : (Ty.record .survey).decode (.root 8) .survey =
      .error (.inField "c" (.notCastable "int" "boolean")) := rfl
  have hok : (Ty.mapOf .int).decode (.root 8) (.map ⟨.json, [("a", .int 1)], false⟩) =
      .ok (.map ⟨.mapOf .int, [("a", .int 1)], false⟩) := rfl
  constructor
  · obtain ⟨path, e, hfirst, hroot, hunder, -⟩ :=
      decode_failure_is_first.1 _ _ 8 _ herr (fun n h => nomatch h)
    have he : e = .notCastable "int" "boolean" := hroot.symm
    exact ⟨path, e, hfirst, hunder ▸ herr, he, hunder.symm.trans (he ▸ rfl)⟩
  · exact decode_failure_is_first.2 _ _ _ 8 hok

end TypedJson

import CheckedLock.Proofs.Guarded.Visit

/-! Serialization. A document carries the value of a mutex and nothing else: it is read as the value
that was written, and it does not tell where the value was. A document that was not written of a
value comes back with integers of 32 bits in the place of its numbers. -/
namespace CheckedLock
namespace Guarded
namespace World

variable {n : Nat}

/-- A thread at rest, and a mutex that it does not have. -/
structure Ready (w : World n) (t : Fin n) (m : Name) : Prop where
  resting : w.isResting t = true
  exists_mutex : w.mutexes m ≠ none
  outside : ¬ w.Holds t m

/-- What a call of thread `t` comes to, whatever the others do meanwhile: the thread waits for the
mutex, or its last step is due. Then `q` is true of the mutex as the thread has it, the answer and
the world after the call. -/
def Achieves (w : World n) (t : Fin n) (m : Name) (o : MutexOp)
    (q : Mutex n → Reply → World n → Prop) : Prop :=
  ∃ v, w.turn (.start t (.mutex m o)) = some (v, none) ∧ ∀ {u}, v.Amid t u → u.Queues t m ∨
    ∃ x z reply, u.mutexes m = some x ∧ u.turn (.finish t) = some (z, some reply) ∧ q x reply z

/-- What the documents of a mutex say. Where another world is spoken of, it can be a later one. -/
structure CarriesValue (w : World n) (t : Fin n) (m : Name) : Prop where
  /-- The document is read as the value it was written of, behind any mutex for such values. -/
  roundTrip : w.Achieves t m .toJson fun x reply z => z.value? m = some x.value ∧
    ∃ j, reply = .document j ∧ (x.value.Proper → ∀ cut {v : World n} {s k}, v.Reachable →
      v.Ready s k → v.Achieves s k (.fromJson ⟨j, cut⟩) fun y reply z =>
        y.value.kind = x.value.kind → reply = .done ∧ z.value? k = some x.value)
  /-- A document that is accepted comes back as it was if there are only texts and integers of 32
  bits in it, else with such integers in the place of its other numbers and of its truth values. -/
  accepted : ∀ d, w.Achieves t m (.fromJson d) fun x reply z =>
    (reply = .done ↔ Payload.Shaped x.value.kind d.json) ∧ (reply = .done →
      ∃ p, p.kind = x.value.kind ∧ p.Proper ∧ z.value? m = some p ∧
        ∀ {v : World n} {s k}, v.Reachable → v.Ready s k →
          v.Achieves s k .toJson fun y reply _ => y.value = p →
            ∃ e, reply = .document e ∧ e.Like (Json.Rewritten d.cut) d.json ∧
              (e.Same d.json ↔ d.json.Fits))
  /-- Equal values have equal documents, in other hands and with other marks and histories. -/
  alike : w.Achieves t m .toJson fun x reply _ => ∀ {i : Nat} {v : World i} {s k}, v.Reachable →
    v.Ready s k → v.Achieves s k .toJson fun y reply' _ => y.value = x.value → reply' = reply

variable {w v : World n} {t : Fin n} {m : Name} {o : MutexOp} {p : Purpose}
  {q q' : Mutex n → Reply → World n → Prop}

theorem Ready.exists_outside (h : w.Ready t m) :
    ∃ x, w.mutexes m = some x ∧ x.core.inside ≠ some t := by
  obtain ⟨x, hx⟩ := Option.ne_none_iff_exists'.mp h.exists_mutex
  exact ⟨x, hx, fun hin => h.outside ⟨x, hx, hin⟩⟩

/-- A visit achieves what follows from its answer and from what it leaves. -/
theorem Reachable.achieves (hw : w.Reachable) (h : w.Ready t m) (ho : o.visit? = some p)
    (hq : ∀ {x reply z value poisoned}, Visited x.value x.core.poisoned o reply value poisoned →
      z.value? m = some value → q x reply z) : w.Achieves t m o q := by
  obtain ⟨x, hx, hown⟩ := h.exists_outside
  have hturn := turn_visit h.resting hx ho
  have hv := hw.turn (allows_visit ho) hturn
  have hcall := attempt_of_call (t := t) (hw.orderly.sound.holder_eq_inside (ledger_core hx)) false
  refine ⟨_, hturn, fun hu => ?_⟩
  refine (((underway_arrive hcall hown).runs hv ho).1 hu).imp_right ?_
  rintro ⟨y, z, reply, value, poisoned, hy, -, hfin, hvis, -, hsame⟩
  refine ⟨y, z, reply, hy, hfin, hq hvis ?_⟩
  simp [value?, hsame.mutexes]

theorem Reachable.achieves_toJson (hw : w.Reachable) (h : w.Ready t m) (hq : ∀ {x z},
    z.value? m = some x.value → q x (.document x.value.toJson) z) : w.Achieves t m .toJson q := by
  refine hw.achieves h rfl fun hvis hz => ?_
  cases hvis
  exact hq hz

theorem Reachable.achieves_fromJson (hw : w.Reachable) (h : w.Ready t m) {d : Document}
    (hread : ∀ {x z p}, d.read? x.value.kind = some p → z.value? m = some p → q x .done z)
    (hmisshapen : ∀ {x z}, ¬ Payload.Shaped x.value.kind d.json → q x .misshapen z) :
    w.Achieves t m (.fromJson d) q := by
  refine hw.achieves h rfl fun hvis hz => ?_
  cases hvis with
  | read _ hd => exact hread hd hz
  | misshapen hshape => exact hmisshapen hshape

theorem Reachable.reads_back (hw : w.Reachable) (h : w.Ready t m) {value : Payload}
    (hp : value.Proper) (cut : Numeral → Int) :
    w.Achieves t m (.fromJson ⟨value.toJson, cut⟩) fun y reply z =>
      y.value.kind = value.kind → reply = .done ∧ z.value? m = some value := by
  have hwritten : Payload.ofJson? cut value.kind value.toJson = some value :=
    Payload.ofJson?_toJson hp
  refine hw.achieves_fromJson h ?_ ?_
  · intro y z p hread hz hkind
    rw [Document.read?, hkind, hwritten] at hread
    exact ⟨rfl, hz.trans hread.symm⟩
  · intro y z hshape hkind
    rw [hkind] at hshape
    exact absurd (Payload.ofJson?_isSome_iff.mp (Option.isSome_of_eq_some hwritten)) hshape

theorem Reachable.carriesValue (hw : w.Reachable) (h : w.Ready t m) : w.CarriesValue t m := by
  constructor
  case roundTrip =>
    exact hw.achieves_toJson h fun hz => ⟨hz, _, rfl, fun hp cut _ _ _ hv hk => hv.reads_back hk hp cut⟩
  case accepted =>
    intro d
    refine hw.achieves_fromJson h ?_ ?_
    · intro x z p hread hz
      have hshape := Payload.ofJson?_isSome_iff.mp (Option.isSome_of_eq_some hread)
      obtain ⟨hkind, hproper⟩ := Payload.proper_of_ofJson? hread
      refine ⟨⟨fun _ => hshape, fun _ => rfl⟩, fun _ => ⟨p, hkind, hproper, hz, ?_⟩⟩
      intro v s k hv hk
      refine hv.achieves_toJson hk ?_
      rintro y z - rfl
      exact ⟨_, rfl, Payload.toJson_like hread⟩
    · intro x z hshape
      exact ⟨⟨nofun, fun h => absurd h hshape⟩, nofun⟩
  case alike =>
    refine hw.achieves_toJson h fun {x _} _ => ?_
    intro i v s k hv hk
    refine hv.achieves_toJson hk fun {y _} _ he => ?_
    rw [he]

/-- A table behind a poisoned mutex, and a document of it with its members in another order, one of
them a number with a point and one a truth value. -/
theorem carriesValue_of_poisoned : ∃ (w v z : World 2), w.Reachable ∧ w.Ready 0 "m" ∧
    w.CarriesValue 0 "m" ∧ w.ask 0 "m" .poisoned = .flag true ∧
    w.turn (.start 0 (.mutex "m" (.fromJson
      ⟨.object [("b", .number (.decimal "2.5")), ("a", .bool true)], fun _ => 2⟩))) =
        some (v, none) ∧
    v.turn (.finish 0) = some (z, some .done) ∧
    z.value? "m" = some (.table [("a", 1), ("b", 2)]) := by
  have h₁ := (Reachable.initial (n := 2)).turn (x := .start 1 (.mutex "m" (.create (.table []))))
    rfl rfl
  have h₂ := h₁.turn (x := .start 1 (.mutex "m" (.lock "s"))) ⟨nofun, fun u => nofun⟩ rfl
  have h₃ := h₂.turn (x := .finish 1) trivial rfl
  have h₄ := h₃.turn (x := .start 1 .throw) trivial rfl
  have h := h₄.turn (x := .start 1 (.result "s" .drop)) (by rintro s ⟨⟩; rfl) rfl
  refine ⟨_, _, _, h, ?ready, h.carriesValue ?ready, rfl, rfl, rfl, by decide⟩
  exact ⟨rfl, nofun, by rintro ⟨x, ⟨⟩, ⟨⟩⟩⟩

/-- An integer that has no room comes back as another one. -/
theorem not_returned_without_room : ¬ ∀ (w w₁ w₂ w₃ w₄ : World 1) (m : Name) (d : Document)
    (e : Json), w.Reachable → w.Ready 0 m → w.turn (.start 0 (.mutex m (.fromJson d))) = some (w₁, none) →
    w₁.turn (.finish 0) = some (w₂, some .done) →
    w₂.turn (.start 0 (.mutex m .toJson)) = some (w₃, none) →
    w₃.turn (.finish 0) = some (w₄, some (.document e)) → e.Same d.json := by
  intro hlaw
  have h := (Reachable.initial (n := 1)).turn (x := .start 0 (.mutex "m" (.create (.int 0))))
    rfl rfl
  have hsame := hlaw _ _ _ _ _ "m" ⟨.number (.integer 4294967296), fun _ => 0⟩
    (.number (.integer 0)) h ⟨rfl, nofun, by rintro ⟨x, ⟨⟩, ⟨⟩⟩⟩ rfl rfl rfl rfl
  exact absurd (Json.same_integer.mp hsame) (by simp)

end World
end Guarded
end CheckedLock

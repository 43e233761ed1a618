import ProxyTiming.Proofs.Run.Rounds

/-!
# The result of a run

What a run returns is settled by what its trials return, and by how many of them have been
admitted before somebody cancelled.  Nothing else has a say in it: not the strategy, nor the
order in which workers finish, nor the way of their outcomes through the queue.

A run has to return something in the first place.  Its parties never come to a standstill
before the end, whatever they have done so far, and they cannot go on forever.  For a run on
a clock the end is a value that can be computed.
-/

namespace ProxyTiming.Run

open ProxyTiming.Time Engine

/-- Every run comes to an end, in which the results of the trials that have been called are in
their slots, each in its own, and the counters and the status agree with them. -/
theorem Plan.result_intact {p : Plan} (hwidth : p.strategy.width ≤ maxWidth)
    (fate : Nat → Option (Except TrialFailure Timings)) :
    (∀ now cancelled journal ls e, (Engine.start p now cancelled journal).follow ls = some e →
      (∀ l ∈ ls, l.Obeys fate) →
        ls.countP Label.isInner ≤ 11 * p.count + 5 ∧
        (∃ ls' e', e.follow ls' = some e' ∧ (∀ l ∈ ls', l.isInner = true ∧ l.Obeys fate) ∧
          e'.closed = true) ∧
        (e.closed = true →
          ∃ k, (called ls).Perm (List.range k) ∧ Intact p.count fate k e.run)) ∧
    (∀ trial : Nat → Trial, (∀ i, (trial i).result = fate i) → ∀ cancelOnCall scene,
      ∃ t, p.execute trial cancelOnCall scene = .ok t ∧
        Intact p.count fate t.calls.length t.engine.run) := by
  constructor
  · intro now cancelled journal ls e h obeys
    have hbound := countP_isInner_add_work_le h
    refine ⟨by omega, exists_closed fate h, fun closed => ?_⟩
    have settled := ((sound_of_follow h).finished closed).1
    exact ⟨e.dispatched, called_perm_of_isSettled h settled, intact_of_closed h obeys closed⟩
  · intro trial htrial cancelOnCall scene
    obtain ⟨t, ls, hok, hfollow, hobeys, hclosed, hcalls, -⟩ :=
      Plan.execute_eq_ok hwidth trial cancelOnCall scene
    have settled := ((sound_of_follow hfollow).finished hclosed).1
    have hdispatched : t.calls.length = t.engine.dispatched := by
      rw [hcalls, (called_perm_of_isSettled hfollow settled).length_eq, List.length_range]
    have hfate : (fun i => (trial i).result) = fate := funext htrial
    rw [hfate] at hobeys
    refine ⟨t, hok, ?_⟩
    rw [hdispatched]
    exact intact_of_closed hfollow hobeys hclosed

/-- A run of three trials, two at a time, of which the second one ends its worker and the third
one fails. -/
theorem result_intact_of_panic :
    let p : Plan := ⟨.nil, "t", "c", "u", .concurrent 2, 3⟩
    let fate : Nat → Option (Except TrialFailure Timings) := fun
      | 0 => some (.ok { Timings.zero with success := true })
      | 1 => none
      | _ => some (.error ⟨.zero, .timeout .zero⟩)
    p.strategy.width ≤ maxWidth ∧
      ∃ t, p.execute (fun i => ⟨.zero, fate i⟩) none (.start false none (.start none)) = .ok t ∧
        Intact 3 fate t.calls.length t.engine.run := by
  intro p fate
  have hwidth : p.strategy.width ≤ maxWidth := by decide
  exact ⟨hwidth, (Plan.result_intact hwidth fate).2 _ (fun _ => rfl) none _⟩

end ProxyTiming.Run

import NodeBus.Session.Parties
import NodeBus.Session.Run

/-!
# Sessions are schedules

A session that is run is one of the schedules of parties: its program enters and takes
its steps one after the other (`run_is_schedule`). So what holds along every schedule
holds of what a session shows.
-/

namespace NodeBus.Session

/-- The parties of which a machine is the only one. -/
def Machine.alone (m : Machine) : Parties := ⟨m.node, m.reactions, [m.stack]⟩

theorem play_alone {m m' : Machine} {now : List Happening} (h : m.step = some (now, m')) :
    m.alone.play (.step 0) = (now, m'.alone) := by
  have hbind : (m.alone.ongoing[0]?.map m.alone.machine).bind Machine.step = some (now, m') := h
  simp only [Parties.play, hbind]
  rfl

theorem runFrom_alone (past : List Happening) (m : Machine) (fuel : Nat) :
    ∃ steps : Nat,
      (m.runFrom past fuel).1 =
        past.reverse ++ (m.alone.run (List.replicate steps (.step 0))).1 ∧
      (m.runFrom past fuel).2.alone = (m.alone.run (List.replicate steps (.step 0))).2 := by
  induction fuel generalizing past m with
  | zero => exact ⟨0, (List.append_nil _).symm, rfl⟩
  | succ fuel ih =>
    cases hstep : m.step with
    | none =>
      simp only [Machine.runFrom, hstep]
      exact ⟨0, (List.append_nil _).symm, rfl⟩
    | some result =>
      obtain ⟨now, m'⟩ := result
      obtain ⟨steps, hseen, hleft⟩ := ih (now.reverse ++ past) m'
      refine ⟨steps + 1, ?_, ?_⟩
      · simp only [Machine.runFrom, hstep, List.replicate_succ, Parties.run, play_alone hstep]
        rw [hseen, List.reverse_append, List.reverse_reverse, List.append_assoc]
      · simp only [Machine.runFrom, hstep, List.replicate_succ, Parties.run, play_alone hstep]
        exact hleft

/-- What a session shows is the history of a schedule, and it leaves what that leaves. -/
theorem run_is_schedule (node : Node) (program : Script) :
    ∃ turns : List Turn, (Parties.begin node (.filled .idle)).run turns =
      ((run node program).1, (run node program).2.alone) := by
  obtain ⟨steps, hseen, hleft⟩ := runFrom_alone []
    (.begin node (.filled .idle) program) (scriptCost program)
  refine ⟨.enter .main program :: List.replicate steps (.step 0), ?_⟩
  rw [run, hseen, hleft]
  rfl

end NodeBus.Session

import NodeBus.Session.Machine

/-!
# Running a session

`run` takes the machine through a whole program. The number of steps that this
can take is computed from the program: every action in it is charged for all that
it can cause, a script that a listener is armed with for each of its calls.
-/

namespace NodeBus.Session

/-- The steps that an action can cause apart from the scripts in it: a publication
is charged with its delivery to four listeners, a worker with all its looks. -/
def actionCost : Nat := 512

mutual
/-- A bound on the steps that an action can cause. -/
def Action.cost : Action → Nat
  | .setClock _ action => actionCost + action.cost
  | .step _ busy => actionCost + scriptCost busy
  | .run waits busy => actionCost + 16 * waits + scriptCost busy
  | .arm _ times script => actionCost + times * (actionCost + scriptCost script)
  | _ => actionCost

/-- A bound on the steps that a script can cause. -/
def scriptCost : List Action → Nat
  | [] => actionCost
  | action :: script => action.cost + scriptCost script
end

/-- Take at most `fuel` steps; `past` are the happenings so far, the latest first. -/
def Machine.runFrom (past : List Happening) (m : Machine) : Nat → List Happening × Machine
  | 0 => (past.reverse, m)
  | fuel + 1 =>
    match m.step with
    | none => (past.reverse, m)
    | some (happenings, m) => runFrom (happenings.reverse ++ past) m fuel

/-- Run a program on a node whose callers do nothing until they are armed: all
that happens, in order, and the machine in the end. -/
def run (node : Node) (program : Script) : List Happening × Machine :=
  (Machine.begin node (.filled .idle) program).runFrom [] (scriptCost program)

end NodeBus.Session

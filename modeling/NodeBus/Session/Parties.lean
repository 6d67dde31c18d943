import NodeBus.Session.Machine

/-!
# Several parties at once

Tasks, interrupt handlers and whoever else acts on a node are parties. Each has a
stack of what it has going on, and they share the node and the reactions of the
callers. A schedule says whose turn it is: any party may do its next small thing
between any two small things of another, a new party may begin at any moment, and
the time that a waiting worker has left may turn out to be any.

- `Parties.play` is one turn;
- `Parties.run` plays a schedule and keeps the history.
-/

namespace NodeBus.Session

/-- Parties that share a node. -/
structure Parties where
  node : Node
  reactions : Bank Caller Reaction
  /-- What each party has going on, in order of their beginning. -/
  ongoing : List (List Activity)

/-- What comes next. -/
inductive Turn where
  /-- Someone begins to run a script: a task, or an interrupt handler. -/
  | enter (who : Caller) (script : Script)
  /-- A party does one small thing. -/
  | step (party : Nat)
  /-- The worker that a party waits in has so many looks at the queue left until the
  pause is over and until it is given up. -/
  | allot (party : Nat) (pending : Option Nat) (looks : Nat)

namespace Parties

/-- Nobody has begun yet. -/
def begin (node : Node) (reactions : Bank Caller Reaction) : Parties := ⟨node, reactions, []⟩

/-- The machine of a party that has `stack` going on. -/
def machine (p : Parties) (stack : List Activity) : Machine := ⟨p.node, p.reactions, stack⟩

/-- One turn: what happens, and the parties afterwards. A turn of a party that has
nothing going on changes nothing. -/
def play (p : Parties) : Turn → List Happening × Parties
  | .enter who script => ([], { p with ongoing := p.ongoing ++ [[.code who script]] })
  | .step party =>
    match (p.ongoing[party]?.map p.machine).bind Machine.step with
    | some (now, m) => (now, ⟨m.node, m.reactions, p.ongoing.set party m.stack⟩)
    | none => ([], p)
  | .allot party pending looks =>
    match p.ongoing[party]? with
    | some (.working ⟨loops, pauses, _, delivered, notes, .waiting _⟩ :: rest) =>
      let w : Worker := ⟨loops, pauses, looks, delivered, notes, .waiting pending⟩
      ([], { p with ongoing := p.ongoing.set party (.working w :: rest) })
    | _ => ([], p)

/-- Play a schedule: the history, and the parties in the end. -/
def run (p : Parties) : List Turn → List Happening × Parties
  | [] => ([], p)
  | turn :: turns =>
    let (now, p) := p.play turn
    let (later, p) := p.run turns
    (now ++ later, p)

end Parties

end NodeBus.Session

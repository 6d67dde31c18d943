import NodeBus.Board.Run

/-!
# Courses of a board

A course is one of the ways in which a board can go on: any task may take its next
step between any two steps of others, time may pass, bytes may arrive in any pieces
and writes may begin to fail.

- `Board.follow` is one impulse;
- `Board.course` follows a list of impulses and keeps all that is seen.
-/

namespace NodeBus.Board

/-- What can come next on a board. -/
inductive Impulse where
  /-- A task takes a step, if it has anything to do. -/
  | step (task : Nat)
  | elapse (microseconds : Nat)
  /-- Something arrives on the serial line. -/
  | arrive (arrival : Arrival)
  /-- So many of the next writes to the serial line fail. -/
  | failWrites (count : Nat)
  deriving DecidableEq, Repr

/-- A board whose only task is to set up the node. -/
def booting (tuning : Tuning) : Board := (powerOn tuning).spawn .boot

/-- What is seen of one impulse, and the board afterwards. A task that has ended
leaves its place; those that it has started come behind the others. -/
def follow (b : Board) : Impulse → List Entry × Board
  | .step task =>
    match b.tasks[task]?.bind b.step with
    | some m =>
      let tasks := b.tasks.take task ++ m.task.toList ++ b.tasks.drop (task + 1) ++ m.started
      (m.seen, { m.board with tasks })
    | none => ([], b)
  | .elapse microseconds => ([], b.elapse microseconds)
  | .arrive arrival => ([], { b with inbox := b.inbox ++ [arrival] })
  | .failWrites count => ([], { b with failing := count })

/-- Follow a list of impulses. -/
def course (b : Board) : List Impulse → List Entry × Board
  | [] => ([], b)
  | impulse :: impulses =>
    let (seen, b) := b.follow impulse
    let (later, b) := b.course impulses
    (seen ++ later, b)

end NodeBus.Board

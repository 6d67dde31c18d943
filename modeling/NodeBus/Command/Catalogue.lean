import NodeBus.Command.Request
import NodeBus.Command.Response

/-!
# Handlers and their catalogue

A handler executes the commands of one key. The catalogue holds up to eight
handlers in order of registration and finds them by key; the keys in it are
pairwise different.
-/

namespace NodeBus.Command

/-! ## Handlers -/

/-- What a handler can read from the node it runs on. -/
structure Surroundings where
  /-- The clock in milliseconds. -/
  now : UInt32
  /-- The tick counts. -/
  count : Nat → UInt32

/-- A command that a node can execute. `execute` receives the response as it was
prepared for the request and returns it filled in. -/
structure Handler where
  key : Key
  execute : Surroundings → Request → Response → Response

namespace Handler

/-- Answers with the clock. -/
def ping : Handler where
  key := .ping
  execute around _ response := (response.setWord around.now).setStatus .success

/-- Answers with the tick count number `i`. -/
def counter (i : Nat) : Handler where
  key := .counter
  execute around _ response := (response.setWord (around.count i)).setStatus .success

/-- Answers with a fixed word. -/
def constant (key : Key) (w : UInt32) : Handler where
  key
  execute _ _ response := response.setWord w

/-- Answers with the parameters and refuses a request that has none. -/
def echo (key : Key) : Handler where
  key
  execute _ request response :=
    match request.params with
    | [] => response.setStatus .invalidParam
    | params => (response.setData params).toOption.getD response

/-- Answers with fixed data, left out if there is too much, and a fixed status. -/
def preset (key : Key) (data : List UInt8) (status : Status) : Handler where
  key
  execute _ _ response := ((response.setData data).toOption.getD response).setStatus status

/-- Leaves the response as it was prepared. -/
def silent (key : Key) : Handler where
  key
  execute _ _ response := response

end Handler

/-! ## The catalogue -/

/-- The most handlers in a catalogue. -/
def maxHandlers : Nat := 8

/-- The registered handlers in order of registration. -/
structure Catalogue where
  handlers : List Handler

namespace Catalogue

/-- Why a handler is not registered. -/
inductive Error where
  /-- There are eight handlers already. -/
  | full
  /-- There is a handler for the key already. -/
  | duplicate
  deriving DecidableEq, Repr

/-- The name of an error in answers and log lines. -/
def Error.name : Error → String
  | .full => "Full"
  | .duplicate => "Duplicate"

def empty : Catalogue := ⟨[]⟩

def size (c : Catalogue) : Nat := c.handlers.length

/-- The handler for a key. -/
def find? (c : Catalogue) (key : Key) : Option Handler := c.handlers.find? (·.key = key)

/-- Add a handler behind the others. A full catalogue refuses every handler, also
one whose key it holds. -/
def register (c : Catalogue) (h : Handler) : Except Error Catalogue :=
  if maxHandlers ≤ c.size then .error .full
  else if (c.find? h.key).isSome then .error .duplicate
  else .ok ⟨c.handlers ++ [h]⟩

/-- The response to a request: what the handler for its key makes of an empty
response, or `notFound` where there is none. -/
def respond (c : Catalogue) (around : Surroundings) (request : Request) : Response :=
  match c.find? request.key with
  | some h => h.execute around request (.empty request.key)
  | none => (Response.empty request.key).setStatus .notFound

end Catalogue

end NodeBus.Command

import NodeBus.Node

/-!
# One execution, one handler

An execution stamps the notice with the clock, gives the handler of the key an empty response to
fill, and keeps what comes back. This is so even where handlers may do anything with the world
that they run in: they are `Agent`s here, and `Registry.execute` goes through the stages of an
execution one by one. The execution on a node is the case in which handlers change nothing
(`execute_eq`).

Which handlers run, how often and on what is seen where all of them are traced (`Call`).
-/

namespace NodeBus.Command

/-! ## Agents -/

/-- A world with a clock that keeps a notice. -/
structure World (ω : Type) where
  now : ω → UInt32
  notice : ω → Notice
  keep : ω → Notice → ω

/-- A handler that may read and change its world. -/
structure Agent (ω : Type) where
  key : Key
  execute : Request → Response → ω → Response × ω

/-- Agents in order of registration, at most one of them for a key. -/
structure Registry (ω : Type) where
  agents : List (Agent ω)
  distinct : (agents.map Agent.key).Nodup

namespace Registry

variable {ω : Type}

def find? (r : Registry ω) (key : Key) : Option (Agent ω) := r.agents.find? (·.key = key)

/-- Execute a request: read the notice, prepare it, let the agent fill in the response, write the
notice back. -/
def execute (r : Registry ω) (W : World ω) (request : Request) (w : ω) : ω :=
  let event := (W.notice w).update (W.now w) (.empty request.key)
  match r.find? request.key with
  | some a =>
    let (response, w) := a.execute request event.response w
    W.keep w { event with response }
  | none => W.keep w { event with response := event.response.setStatus .notFound }

/-- The notice that an execution keeps, of a response. -/
def noticeOf (W : World ω) (w : ω) (response : Response) : Notice :=
  ⟨⟨W.now w, (W.notice w).envelope.kind⟩, response⟩

variable {r : Registry ω} {W : World ω} {request : Request} {w : ω}

theorem find?_of_registered {i : Nat} {a : Agent ω} (h : r.agents[i]? = some a) :
    r.find? a.key = some a := by
  obtain ⟨hlt, rfl⟩ := List.getElem?_eq_some_iff.mp h
  refine List.find?_eq_some_iff_getElem.mpr ⟨by simp, i, hlt, rfl, fun j hj => ?_⟩
  -- An agent before it has another key.
  have hdistinct := List.pairwise_iff_getElem.mp (List.pairwise_map.mp r.distinct)
  simpa using hdistinct j i (Nat.lt_trans hj hlt) hlt hj

theorem execute_of_registered {i : Nat} {a : Agent ω} (h : r.agents[i]? = some a)
    (hkey : a.key = request.key) :
    r.execute W request w = W.keep (a.execute request (.empty request.key) w).2
      (noticeOf W w (a.execute request (.empty request.key) w).1) := by
  simp only [execute, ← hkey, find?_of_registered h]
  rfl

theorem execute_of_unregistered (h : ∀ a ∈ r.agents, a.key ≠ request.key) :
    r.execute W request w =
      W.keep w (noticeOf W w ((Response.empty request.key).setStatus .notFound)) := by
  have hfind : r.find? request.key = none := by simpa [find?] using h
  simp only [execute, hfind]
  rfl

end Registry

/-! ## Traces -/

/-- A call of an agent: its number, the request and the response as it is given to it. -/
structure Call where
  number : Nat
  request : Request
  response : Response

section Trace

variable {ω : Type}

/-- An agent whose calls are written down. -/
def Agent.traced (i : Nat) (a : Agent ω) : Agent (ω × List Call) where
  key := a.key
  execute request response w :=
    let (filled, w') := a.execute request response w.1
    (filled, (w', w.2 ++ [⟨i, request, response⟩]))

def World.traced (W : World ω) : World (ω × List Call) where
  now w := W.now w.1
  notice w := W.notice w.1
  keep w notice := (W.keep w.1 notice, w.2)

def Registry.traced (r : Registry ω) : Registry (ω × List Call) where
  agents := r.agents.mapIdx Agent.traced
  distinct := by
    have hkeys : (r.agents.mapIdx Agent.traced).map Agent.key = r.agents.map Agent.key := by
      refine List.ext_getElem? fun i => ?_
      simp only [List.getElem?_map, List.getElem?_mapIdx, Option.map_map]
      rfl
    exact hkeys ▸ r.distinct

variable {r : Registry ω} {W : World ω} {request : Request} {w : ω}

theorem traced_of_registered {i : Nat} {a : Agent ω} (h : r.agents[i]? = some a)
    (hkey : a.key = request.key) :
    r.traced.execute W.traced request (w, []) =
      (r.execute W request w, [⟨i, request, .empty request.key⟩]) := by
  have htraced : r.traced.agents[i]? = some (a.traced i) := by
    simp [Registry.traced, List.getElem?_mapIdx, h]
  rw [Registry.execute_of_registered htraced hkey, Registry.execute_of_registered h hkey]
  rfl

theorem traced_of_unregistered (h : ∀ a ∈ r.agents, a.key ≠ request.key) :
    r.traced.execute W.traced request (w, []) = (r.execute W request w, []) := by
  have htraced : ∀ a ∈ r.traced.agents, a.key ≠ request.key := by
    intro a ha
    obtain ⟨i, hi, rfl⟩ := List.mem_mapIdx.mp ha
    exact h _ (List.getElem_mem hi)
  rw [Registry.execute_of_unregistered htraced, Registry.execute_of_unregistered h]
  rfl

/-- What an execution does, and which agents it calls. -/
structure Executes (r : Registry ω) (W : World ω) (request : Request) (w : ω) : Prop where
  registered : ∀ i a, r.agents[i]? = some a → a.key = request.key →
    r.execute W request w = W.keep (a.execute request (.empty request.key) w).2
      (Registry.noticeOf W w (a.execute request (.empty request.key) w).1) ∧
    r.traced.execute W.traced request (w, []) =
      (r.execute W request w, [⟨i, request, .empty request.key⟩])
  unregistered : (∀ a ∈ r.agents, a.key ≠ request.key) →
    r.execute W request w =
      W.keep w (Registry.noticeOf W w ((Response.empty request.key).setStatus .notFound)) ∧
    r.traced.execute W.traced request (w, []) = (r.execute W request w, [])

theorem executes (r : Registry ω) (W : World ω) (request : Request) (w : ω) :
    Executes r W request w where
  registered _ _ h hkey := ⟨Registry.execute_of_registered h hkey, traced_of_registered h hkey⟩
  unregistered h := ⟨Registry.execute_of_unregistered h, traced_of_unregistered h⟩

end Trace

/-! ## The handlers of a node -/

def nodeWorld : World Node where
  now := Node.now
  notice := Node.notice
  keep n notice := { n with notice }

/-- A handler as an agent that leaves the node as it is. -/
def Handler.agent (h : Handler) : Agent Node where
  key := h.key
  execute request response n := (h.execute n.surroundings request response, n)

namespace Catalogue

/-- The keys in a catalogue are pairwise different. -/
def Distinct (c : Catalogue) : Prop := (c.handlers.map Handler.key).Nodup

theorem distinct_empty : empty.Distinct := List.nodup_nil

theorem distinct_register {c c' : Catalogue} {h : Handler} (hc : c.Distinct)
    (hregister : c.register h = .ok c') : c'.Distinct := by
  simp only [register] at hregister
  split at hregister
  · cases hregister
  · split at hregister
    · cases hregister
    · rename_i hfresh
      cases hregister
      have hnew : h.key ∉ c.handlers.map Handler.key := by simpa [find?] using hfresh
      rw [Distinct, List.map_append, List.map_singleton]
      exact List.nodup_append.mpr ⟨hc, by simp, by simpa using hnew⟩

def registry (c : Catalogue) (h : c.Distinct) : Registry Node where
  agents := c.handlers.map Handler.agent
  distinct := by simpa [Distinct, Function.comp_def, Handler.agent] using h

end Catalogue

/-- The execution on a node goes through the stages of an execution. -/
theorem execute_eq {n : Node} (h : n.catalogue.Distinct) (request : Request) :
    n.execute request = (n.catalogue.registry h).execute nodeWorld request n := by
  have hfind : (n.catalogue.registry h).find? request.key =
      (n.catalogue.find? request.key).map Handler.agent := by
    simp only [Registry.find?, Catalogue.registry, List.find?_map, Catalogue.find?]
    rfl
  rw [Registry.execute, hfind, Node.execute, Catalogue.respond]
  cases n.catalogue.find? request.key <;> rfl

end NodeBus.Command

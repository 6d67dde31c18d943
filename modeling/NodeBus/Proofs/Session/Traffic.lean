import NodeBus.Proofs.Session.Moves

/-!
# What a turn does to the bus

`Traffic` is what is left of a move when nobody's engagements matter: what one small thing
can do to the queues and counters of the bus, and what is recorded of it.
-/

namespace NodeBus.Session

/-- What one small thing does to a bus, and what is recorded. -/
inductive Traffic (b : Bus Delivery Alarm) : List Happening → Bus Delivery Alarm → Prop where
  | quiet {now : List Happening} {b' : Bus Delivery Alarm} (silent : Silent now)
      (lanes : ∀ l, b'.lane l = b.lane l) : Traffic b now b'
  | reset {now : List Happening} (silent : Silent now) : Traffic b now b.resetCounters
  | offer {l : Level} {d : Delivery} {refusal : Option Refusal} {b' : Bus Delivery Alarm}
      {later : List Happening} (offered : b.offer l d = (refusal, b')) (silent : Silent later) :
      Traffic b (.offered l d refusal :: later) b'
  | take {l : Level} {d : Delivery} {b' : Bus Delivery Alarm}
      (taken : b.takeFrom? l = some (d, b')) : Traffic b [.taken l d] b'
  | settle (l : Level) : Traffic b [.settled l ((b.settle l).queued l)] (b.settle l)

/-- A bus that is left as it is. -/
theorem Traffic.same (b : Bus Delivery Alarm) : Traffic b [] b :=
  .quiet silent_nil fun _ => rfl

theorem traffic_of_move {b b' : Bus Delivery Alarm} {r : Role} {old new : List Engagement}
    {now : List Happening} (h : Move b r old now b' new) : Traffic b now b' := by
  cases h with
  | aside _ silent lanes => exact .quiet silent lanes
  | reset silent => exact .reset silent
  | offer offered silent => exact .offer offered silent
  | take _ taken => exact .take taken
  | settle l => exact .settle l
  | shift silent _ => exact .quiet silent fun _ => rfl

theorem traffic_play (p : Parties) (turn : Turn) :
    Traffic p.node.bus (p.play turn).1 (p.play turn).2.node.bus := by
  obtain ⟨_, _, _, _, _, _, hmove⟩ := moves_play p turn
  exact traffic_of_move hmove

end NodeBus.Session

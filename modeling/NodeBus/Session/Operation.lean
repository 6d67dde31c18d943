import NodeBus.Session.Reply

/-!
# Operations on a node

`Operation.apply` is what each operation answers and the node after it. No
operation queues or dequeues a delivery or calls a listener.
-/

namespace NodeBus.Session

/-- A notice with a response made up from its parts. -/
def madeUp (key : Command.Key) (status : Command.Status) (data : List UInt8) (now : UInt32) :
    Except Command.Error Notice :=
  (((Command.Response.empty key).setStatus status).setData data).map (Notice.initial.update now)

/-- What the handler of a key makes of a request with the given parameters, on a
response that answers no command yet. -/
def probe (n : Node) (key : Command.Key) (params : List UInt8) : Reply :=
  match n.catalogue.find? key with
  | none => .found none
  | some handler =>
    match Command.Request.make handler.key params with
    | .error cause => .failed cause
    | .ok request =>
      .found (some (handler.key, handler.execute n.surroundings request (.empty .initial)))

namespace Operation

/-- What an operation answers and the node after it. -/
def apply (n : Node) : Operation → Reply × Node
  | start => let (first, bus) := n.bus.start; (.flag first, { n with bus })
  | isStarted => (.flag n.bus.started, n)
  | waitTime => (.number n.bus.wait.toNat, n)
  | claim => let (first, bus) := n.bus.claim; (.flag first, { n with bus })
  | setAlarm alarm => (.nothing, { n with bus := { n.bus with alarm := some alarm } })
  | clearAlarm => (.nothing, { n with bus := { n.bus with alarm := none } })
  | freeSlots level => (.number (n.bus.freeSlots level), n)
  | hasSpace level => (.flag (n.bus.hasSpace level), n)
  | queued level => (.number (n.bus.queued level), n)
  | report => (.report n.bus.report, n)
  | resetCounters => (.nothing, { n with bus := n.bus.resetCounters })
  | topicName topic => (.name (n.topics.get topic).name, n)
  | sharesBus _ => (.flag true, n)
  | listenerCount topic => (.number (n.topics.get topic).roster.size, n)
  | subscribe topic listener context =>
    let (joined, n) := n.subscribe topic (.outside listener) context
    (.flag joined, n)
  | unsubscribe topic listener =>
    let (left, n) := n.unsubscribe topic (.outside listener)
    (.flag left, n)
  | tickIn slot => (.tick (n.slots.get slot), n)
  | putTick slot tick => (.nothing, { n with slots := n.slots.set slot tick })
  | advanceTick slot now period =>
    let tick := (n.slots.get slot).advance now period
    (.tick tick, { n with slots := n.slots.set slot tick })
  | touchTick slot now =>
    let tick := (n.slots.get slot).touch now
    (.tick tick, { n with slots := n.slots.set slot tick })
  | attachCounter counter topic =>
    let (joined, n) := n.attachCounter counter topic
    (.flag joined, n)
  | detachCounter _ topic =>
    let (left, n) := n.detachCounter topic
    (.flag left, n)
  | count counter => (.number (n.counters.get counter).toNat, n)
  | resetCount counter => (.nothing, { n with counters := n.counters.set counter 0 })
  | attachDisplay display topic =>
    let (joined, n) := n.attachDisplay display topic
    (.flag joined, n)
  | addTime display ms times =>
    let time := times.repeat (·.add ms) (n.displays.get display)
    (.time time, { n with displays := n.displays.set display time })
  | resetTime display => (.time .zero, { n with displays := n.displays.set display .zero })
  | time display => (.time (n.displays.get display), n)
  | register handler =>
    match n.catalogue.register handler with
    | .ok catalogue => (.registered none, { n with catalogue })
    | .error refusal => (.registered (some refusal), n)
  | catalogueSize => (.size n.catalogue.size, n)
  | probe key params => (Session.probe n key params, n)
  | lastResponse => (.response n.notice.response, n)
  | putNotice key status data now =>
    match madeUp key status data now with
    | .ok notice => (.nothing, { n with notice })
    | .error cause => (.failed cause, n)
  | subscribeNotices listener context =>
    let (joined, n) := n.subscribeNotices (.outside listener) context
    (.flag joined, n)
  | unsubscribeNotices listener =>
    let (left, n) := n.unsubscribeNotices (.outside listener)
    (.flag left, n)
  | noticeListenerCount => (.number n.noticeTopic.roster.size, n)

end Operation

end NodeBus.Session

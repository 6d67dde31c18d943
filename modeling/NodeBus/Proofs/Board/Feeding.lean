import NodeBus.Proofs.Board.Tasks

/-!
# What the command link is fed, and what it sends

`exchanges` are the frames that the receiver of the link returns, each with what the
board shows when its last byte is fed. `Kept` is what one impulse keeps: the one task
that is or becomes the link has its receiver, what is sent are the replies of the
exchanges, and bytes are fed in the order of their arrival. It is closed under
composition (`Kept.trans`), so that a course keeps it too (`kept_course`).
-/

namespace NodeBus.Board

open NodeBus.Frame (Receiver)

/-! ## Feeding the link -/

/-- A byte that the link is fed, with what the board shows then and whether a write
would go through. -/
structure Feeding where
  byte : UInt8
  reading : Reading
  writable : Bool
  deriving DecidableEq

/-- The byte that an impulse feeds to the link, if any. -/
def feeding? (b : Board) : Impulse → Option Feeding
  | .step task =>
    match b.tasks[task]? with
    | some (.link _ (byte :: _)) => some ⟨byte, b.reading, b.failing == 0⟩
    | _ => none
  | _ => none

def feedings (b : Board) : List Impulse → List Feeding
  | [] => []
  | impulse :: impulses => (b.feeding? impulse).toList ++ (b.follow impulse).2.feedings impulses

/-- The frames that a receiver returns, each with the feeding of its last byte. -/
def exchanges (receiver : LinkReceiver) : List Feeding → List (List UInt8 × Feeding)
  | [] => []
  | f :: fed =>
    ((Receiver.frameOf? (receiver.feed f.byte).1).map (·, f)).toList ++
      exchanges (receiver.feed f.byte).2 fed

/-- What is sent in an exchange: the reply, unless the write fails. -/
def sentIn (exchange : List UInt8 × Feeding) : List UInt8 :=
  if exchange.2.writable then exchange.2.reading.reply exchange.1 else []

def Arrival.content : Arrival → List UInt8
  | .bytes s => s
  | .fault _ => []

def Impulse.content : Impulse → List UInt8
  | .arrive arrival => arrival.content
  | _ => []

/-- The bytes that a task has read and not fed to its receiver. -/
def Task.unread : Task → List UInt8
  | .link _ unread => unread
  | _ => []

/-- The bytes that have arrived and were not fed to the link. -/
def unfed (b : Board) : List UInt8 := b.tasks.flatMap Task.unread ++ b.inbox.flatMap Arrival.content

/-- The frames of the exchanges are those that the receiver returns for the bytes alone. -/
theorem frames_exchanges (receiver : LinkReceiver) (fed : List Feeding) :
    (exchanges receiver fed).map Prod.fst =
      Receiver.frames (receiver.feedAll (fed.map Feeding.byte)).1 := by
  induction fed generalizing receiver with
  | nil => rfl
  | cons f fed ih =>
    simp only [exchanges, List.map_append, ih, List.map_cons, Receiver.feedAll, Receiver.frames,
      List.filterMap_cons]
    cases Receiver.frameOf? (receiver.feed f.byte).1 <;> rfl

theorem exchanges_append (receiver : LinkReceiver) (fed later : List Feeding) :
    exchanges receiver (fed ++ later) = exchanges receiver fed ++
      exchanges (receiver.feedAll (fed.map Feeding.byte)).2 later := by
  induction fed generalizing receiver with
  | nil => rfl
  | cons f fed ih =>
    simp only [List.cons_append, exchanges, ih, List.append_assoc]
    rfl

/-! ## The place of the link -/

/-- Where the one task is that is or becomes the link, and what its receiver has been fed:
nothing before it starts. The handlers are registered before it starts. -/
inductive LinkAt (b : Board) : LinkReceiver → Task → Prop where
  | boot (empty : b.node.catalogue = .empty) : LinkAt b .fresh .boot
  | start (registered : b.node.catalogue.handlers = handlers) : LinkAt b .fresh .linkStart
  | link {receiver : LinkReceiver} {unread : List UInt8}
      (registered : b.node.catalogue.handlers = handlers) :
      LinkAt b receiver (.link receiver unread)

def Linked (b : Board) (receiver : LinkReceiver) : Prop :=
  ∃ t, b.tasks.filter Task.isLink = [t] ∧ LinkAt b receiver t

theorem Linked.exists_place {b : Board} {receiver : LinkReceiver} (h : Linked b receiver) :
    ∃ (i : Nat) (t : Task), b.tasks[i]? = some t ∧ b.tasks.filter Task.isLink = [t] ∧
      LinkAt b receiver t := by
  obtain ⟨t, honly, hat⟩ := h
  have hmem : t ∈ b.tasks.filter Task.isLink := honly ▸ List.mem_singleton_self t
  obtain ⟨i, hi⟩ := List.mem_iff_getElem?.mp (List.mem_filter.mp hmem).1
  exact ⟨i, t, hi, honly, hat⟩

theorem LinkAt.congr {b b' : Board} {receiver : LinkReceiver} {t : Task}
    (h : LinkAt b receiver t) (hcatalogue : b'.node.catalogue = b.node.catalogue) :
    LinkAt b' receiver t := by
  cases h with
  | boot empty => exact .boot (hcatalogue.trans empty)
  | start registered => exact .start (hcatalogue ▸ registered)
  | link registered => exact .link (hcatalogue ▸ registered)

theorem flatMap_unread_filter (tasks : List Task) :
    (tasks.filter Task.isLink).flatMap Task.unread = tasks.flatMap Task.unread := by
  induction tasks with
  | nil => rfl
  | cons t tasks ih =>
    rw [List.filter_cons]
    cases t <;> simp [Task.isLink, Task.unread, ih]

theorem unfed_of_filter {b : Board} {t : Task} (h : b.tasks.filter Task.isLink = [t]) :
    b.unfed = t.unread ++ b.inbox.flatMap Arrival.content := by
  rw [unfed, ← flatMap_unread_filter, h, List.flatMap_singleton]

theorem eq_take_cons_drop {α : Type} {l : List α} {i : Nat} {a : α} (h : l[i]? = some a) :
    l = l.take i ++ a :: l.drop (i + 1) := by
  obtain ⟨hi, rfl⟩ := List.getElem?_eq_some_iff.mp h
  rw [← List.drop_eq_getElem_cons hi, List.take_append_drop]

/-- The only element of a kind is found where one of that kind is, and nowhere else. -/
theorem filter_eq_singleton {α : Type} {p : α → Bool} {l : List α} {i : Nat} {a t : α}
    (ha : l[i]? = some a) (hp : p a = true) (h : l.filter p = [t]) :
    a = t ∧ (l.take i).filter p = [] ∧ (l.drop (i + 1)).filter p = [] := by
  rw [eq_take_cons_drop ha, List.filter_append, List.filter_cons_of_pos hp] at h
  cases hbefore : (l.take i).filter p with
  | nil =>
    rw [hbefore, List.nil_append, List.cons.injEq] at h
    exact ⟨h.1, rfl, h.2⟩
  | cons x before =>
    rw [hbefore] at h
    simp at h

/-! ## One impulse -/

/-- What is kept where the receiver of the link is fed `fed` and `came` arrives. -/
structure Kept (receiver : LinkReceiver) (b : Board) (seen : List Entry) (b' : Board)
    (fed : List Feeding) (came : List UInt8) : Prop where
  linked : Linked b' (receiver.feedAll (fed.map Feeding.byte)).2
  sent : transmitted seen = (exchanges receiver fed).flatMap sentIn
  order : fed.map Feeding.byte ++ b'.unfed = b.unfed ++ came

theorem Kept.trans {receiver : LinkReceiver} {b b' b'' : Board} {seen later : List Entry}
    {fed fed' : List Feeding} {came came' : List UInt8} (h : Kept receiver b seen b' fed came)
    (h' : Kept (receiver.feedAll (fed.map Feeding.byte)).2 b' later b'' fed' came') :
    Kept receiver b (seen ++ later) b'' (fed ++ fed') (came ++ came') := by
  refine ⟨?_, ?_, ?_⟩
  · rw [List.map_append, Receiver.feedAll_append]
    exact h'.linked
  · rw [transmitted_append, h.sent, h'.sent, exchanges_append, List.flatMap_append]
  · rw [List.map_append, List.append_assoc, h'.order, ← List.append_assoc, h.order,
      List.append_assoc]

theorem Kept.idle {receiver : LinkReceiver} {b b' : Board} {seen : List Entry} {t : Task}
    (hat : LinkAt b receiver t) (honly : b.tasks.filter Task.isLink = [t])
    (honly' : b'.tasks.filter Task.isLink = [t])
    (hcatalogue : b'.node.catalogue = b.node.catalogue) (hinbox : b'.inbox = b.inbox)
    (hsilent : transmitted seen = []) : Kept receiver b seen b' [] [] := by
  refine ⟨⟨t, honly', hat.congr hcatalogue⟩, hsilent, ?_⟩
  rw [unfed_of_filter honly', unfed_of_filter honly, hinbox, List.append_nil]
  rfl

/-- The board after the task in a place has taken a step. -/
def afterStep (b : Board) (i : Nat) (m : Moved) : Board :=
  { m.board with
    tasks := b.tasks.take i ++ m.task.toList ++ b.tasks.drop (i + 1) ++ m.started }

/-- A task apart from the link takes a step. -/
theorem kept_of_apart {receiver : LinkReceiver} {b : Board} {i : Nat} {t : Task} {m : Moved}
    (h : Linked b receiver) (hi : b.tasks[i]? = some t) (ht : t.isLink = false)
    (hstep : b.step t = some m) :
    Kept receiver b m.seen (b.afterStep i m) [] [] := by
  obtain ⟨t₀, honly, hat⟩ := h
  have hapart := apart_step ht hstep
  refine .idle hat honly ?_ hapart.catalogue hapart.inbox hapart.silent
  -- The task was not counted before, and neither is what it becomes.
  rw [eq_take_cons_drop hi, List.filter_append, List.filter_cons_of_neg (by simp [ht])] at honly
  simp only [afterStep, List.filter_append, hapart.task, hapart.started, List.append_nil]
  exact honly

/-- The task that is or becomes the link takes a step and leaves one in its place. -/
theorem kept_of_place {receiver : LinkReceiver} {b : Board} {i : Nat} {t t' : Task} {m : Moved}
    {fed : List Feeding} (honly : b.tasks.filter Task.isLink = [t]) (hi : b.tasks[i]? = some t)
    (ht : t.isLink = true)
    (htasks : (m.task.toList ++ m.started).filter Task.isLink = [t'])
    (hat : LinkAt m.board (receiver.feedAll (fed.map Feeding.byte)).2 t')
    (hsent : transmitted m.seen = (exchanges receiver fed).flatMap sentIn)
    (horder : fed.map Feeding.byte ++ (t'.unread ++ m.board.inbox.flatMap Arrival.content) =
      t.unread ++ b.inbox.flatMap Arrival.content) :
    Kept receiver b m.seen (b.afterStep i m) fed [] := by
  -- No other task is the link, so the one that is left in its place is the only one.
  obtain ⟨_, hbefore, hafter⟩ := filter_eq_singleton hi ht honly
  have honly' : (b.afterStep i m).tasks.filter Task.isLink = [t'] := by
    simp only [afterStep, List.filter_append, hbefore, hafter, List.nil_append,
      List.append_nil] at htasks ⊢
    exact htasks
  refine ⟨⟨t', honly', hat.congr rfl⟩, hsent, ?_⟩
  rw [unfed_of_filter honly', unfed_of_filter honly, List.append_nil]
  exact horder

/-- A byte that is fed to the receiver: what is sent, and what stays. -/
theorem feed_spec {b : Board} (h : b.node.catalogue.handlers = handlers)
    (receiver : LinkReceiver) (byte : UInt8) :
    transmitted (b.feed receiver byte).1 =
        (exchanges receiver [⟨byte, b.reading, b.failing == 0⟩]).flatMap sentIn ∧
      (b.feed receiver byte).2.1.node.catalogue = b.node.catalogue ∧
      (b.feed receiver byte).2.1.inbox = b.inbox ∧
      (b.feed receiver byte).2.2 = (receiver.feed byte).2 := by
  unfold feed exchanges
  rcases receiver.feed byte with ⟨given, receiver'⟩
  match given with
  | .error cause => exact ⟨rfl, rfl, rfl, rfl⟩
  | .ok none => exact ⟨rfl, rfl, rfl, rfl⟩
  | .ok (some frame) =>
    obtain ⟨hsent, hcatalogue, hinbox⟩ := answer_reply h frame
    refine ⟨hsent.trans ?_, hcatalogue, hinbox, rfl⟩
    simp [Receiver.frameOf?, exchanges, sentIn]

theorem link_cons (b : Board) (receiver : LinkReceiver) (byte : UInt8) (unread : List UInt8) :
    b.link receiver (byte :: unread) = some ⟨(b.feed receiver byte).1,
      (b.feed receiver byte).2.1, some (.link (b.feed receiver byte).2.2 unread), []⟩ := rfl

/-- The link feeds a byte, or reads what has arrived. -/
theorem kept_of_link {receiver : LinkReceiver} {unread : List UInt8} {b : Board} {i : Nat}
    {m : Moved} (hregistered : b.node.catalogue.handlers = handlers)
    (honly : b.tasks.filter Task.isLink = [.link receiver unread])
    (hi : b.tasks[i]? = some (.link receiver unread)) (hstep : b.link receiver unread = some m) :
    Kept receiver b m.seen (b.afterStep i m) (b.feeding? (.step i)).toList [] := by
  cases unread with
  | cons byte unread =>
    obtain ⟨hsent, hcatalogue, hinbox, hreceiver⟩ := feed_spec hregistered receiver byte
    have hplace := Option.some.inj (hstep.symm.trans (link_cons b receiver byte unread))
    have hfed : (b.feeding? (.step i)).toList = [⟨byte, b.reading, b.failing == 0⟩] := by
      simp only [feeding?, hi, Option.toList_some]
    rw [hfed, hplace]
    have hat : LinkAt (b.feed receiver byte).2.1 (receiver.feed byte).2
        (.link (receiver.feed byte).2 unread) := .link (hcatalogue ▸ hregistered)
    refine kept_of_place honly hi rfl ?_ hat hsent ?_
    · rw [hreceiver]
      rfl
    · rw [hinbox]
      rfl
  | nil =>
    simp only [feeding?, hi]
    simp only [link] at hstep
    split at hstep
    · cases hstep
    · rename_i fault inbox hinbox
      cases hstep
      refine kept_of_place honly hi rfl rfl (.link hregistered) rfl ?_
      rw [hinbox]
      rfl
    · rename_i bytes inbox hinbox
      cases hstep
      refine kept_of_place honly hi rfl rfl (.link hregistered) rfl ?_
      rw [hinbox]
      have hsplit := List.take_append_drop readSize bytes
      -- What is left of an arrival stays in front of the others, unless it is empty.
      split
      · rename_i hleft
        rw [List.isEmpty_iff] at hleft
        rw [hleft, List.append_nil] at hsplit
        simp [Task.unread, Arrival.content, hsplit]
      · simp only [Task.unread, Arrival.content, List.flatMap_cons, List.map_nil, List.nil_append,
          Option.toList_none]
        rw [← List.append_assoc, hsplit]

/-- Only a byte that the link has read is fed. -/
theorem feeding?_eq_none {b : Board} {i : Nat} {t : Task} (hi : b.tasks[i]? = some t)
    (hunread : t.unread = []) : b.feeding? (.step i) = none := by
  cases t with
  | link receiver unread =>
    cases unread with
    | nil => simp only [feeding?, hi]
    | cons byte unread => cases hunread
  | _ => simp only [feeding?, hi]

theorem unread_of_apart {t : Task} (h : t.isLink = false) : t.unread = [] := by
  cases t with
  | link receiver unread => cases h
  | _ => rfl

theorem unread_of_stuck {b : Board} {t : Task} (h : b.step t = none) : t.unread = [] := by
  cases t with
  | link receiver unread =>
    cases unread with
    | nil => rfl
    | cons byte unread => cases h
  | _ => rfl

/-- The task that is or becomes the link takes a step. -/
theorem kept_of_step {receiver : LinkReceiver} {b : Board} {i : Nat} {t : Task} {m : Moved}
    (honly : b.tasks.filter Task.isLink = [t]) (hat : LinkAt b receiver t)
    (hi : b.tasks[i]? = some t) (hstep : b.step t = some m) :
    Kept receiver b m.seen (b.afterStep i m) (b.feeding? (.step i)).toList [] := by
  cases hat with
  | boot empty =>
    obtain ⟨hsilent, hregistered, hinbox⟩ := boot_spec empty
    obtain ⟨htask, hstarted⟩ := boot_tasks b
    obtain rfl : b.boot = m := Option.some.inj hstep
    rw [feeding?_eq_none hi rfl]
    refine kept_of_place honly hi rfl ?_ (.start hregistered) hsilent ?_
    · rw [htask, hstarted]
      rfl
    · rw [hinbox]
      rfl
  | start registered =>
    obtain rfl := Option.some.inj hstep
    rw [feeding?_eq_none hi rfl]
    exact kept_of_place honly hi rfl rfl (.link registered) rfl rfl
  | link registered => exact kept_of_link registered honly hi hstep

theorem kept_follow {receiver : LinkReceiver} {b : Board} (h : Linked b receiver)
    (impulse : Impulse) :
    Kept receiver b (b.follow impulse).1 (b.follow impulse).2 (b.feeding? impulse).toList
      impulse.content := by
  obtain ⟨t₀, honly, hat⟩ := h
  cases impulse with
  | elapse microseconds => exact .idle hat honly honly rfl rfl rfl
  | failWrites count => exact .idle hat honly honly rfl rfl rfl
  | arrive arrival =>
    refine ⟨⟨t₀, honly, hat.congr rfl⟩, rfl, ?_⟩
    simp [follow, unfed, Impulse.content, feeding?]
  | step i =>
    have hstuck (hnone : b.tasks[i]?.bind b.step = none) (hfed : b.feeding? (.step i) = none) :
        Kept receiver b (b.follow (.step i)).1 (b.follow (.step i)).2
          (b.feeding? (.step i)).toList [] := by
      rw [hfed]
      simp only [follow, hnone]
      exact .idle hat honly honly rfl rfl rfl
    cases hi : b.tasks[i]? with
    | none => exact hstuck (by rw [hi]; rfl) (by simp only [feeding?, hi])
    | some t =>
      cases hstep : b.step t with
      | none =>
        exact hstuck (by rw [hi]; exact hstep) (feeding?_eq_none hi (unread_of_stuck hstep))
      | some m =>
        have hbind : b.tasks[i]?.bind b.step = some m := by rw [hi]; exact hstep
        simp only [follow, hbind]
        -- Either the link takes the step, or a task that it does not notice.
        cases ht : t.isLink with
        | false =>
          rw [feeding?_eq_none hi (unread_of_apart ht)]
          exact kept_of_apart ⟨t₀, honly, hat⟩ hi ht hstep
        | true =>
          obtain ⟨rfl, _, _⟩ := filter_eq_singleton hi ht honly
          exact kept_of_step honly hat hi hstep

/-! ## Courses -/

theorem kept_course {receiver : LinkReceiver} {b : Board} (h : Linked b receiver)
    (impulses : List Impulse) :
    Kept receiver b (b.course impulses).1 (b.course impulses).2 (b.feedings impulses)
      (impulses.flatMap Impulse.content) := by
  induction impulses generalizing receiver b with
  | nil =>
    obtain ⟨t, honly, hat⟩ := h
    exact .idle hat honly honly rfl rfl rfl
  | cons impulse impulses ih =>
    have hnow := kept_follow h impulse
    exact hnow.trans (ih hnow.linked)

theorem linked_booting (tuning : Tuning) : Linked (booting tuning) .fresh :=
  ⟨.boot, rfl, .boot rfl⟩

end NodeBus.Board

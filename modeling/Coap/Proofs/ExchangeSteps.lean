import Coap.Proofs.ExchangeTable
import Coap.Proofs.SessionExchanges

/-! All that a step of an exchange and a step of the receiver can do, and from it what any move of a
session does to the table of exchanges. -/
namespace Coap

/-- Whether a message is an acknowledgement or a reset, and so routed by its id. -/
def Message.isAnswer (m : Message) : Bool :=
  match m.type with
  | .acknowledgement | .reset => true
  | .confirmable | .nonConfirmable => false

/-! One step of an exchange. -/

/-- All that a step of an exchange can do. -/
inductive Connection.Advance (c : Connection) (cancelled : Bool) :
    Exchange → Connection.Stepped → Prop
  | refused {r : Message} {e : ClientError} :
      c.Advance cancelled (.begun r) { connection := c, exchange := .ended (.error e) }
  | checked {r : Message} :
      c.Advance cancelled (.begun r) { connection := c, exchange := .checked r }
  | exhausted {r : Message} {messageIds : MessageIds} :
      c.Advance cancelled (.checked r) {
        connection := { c with messageIds }
        exchange := .ended (.error .noMessageIdAvailable) }
  | registered {r : Message} {w : Waiter} {messageIds : MessageIds} {exchanges : Exchanges}
      (register : c.exchanges.register w.id = .ok (w, exchanges)) :
      c.Advance cancelled (.checked r) {
        connection := { c with messageIds, exchanges }
        exchange := .registered { r with id := w.id } w }
  | shut {r : Message} {w : Waiter} (closed : c.closed = true) :
      c.Advance cancelled (.registered r w) (c.giveUp w .connectionClosed)
  | passed {r : Message} {w : Waiter} (closed : c.closed = false) :
      c.Advance cancelled (.registered r w) { connection := c, exchange := .sending r w }
  | stopped {r : Message} {w : Waiter} (stop : cancelled = true) :
      c.Advance cancelled (.sending r w) (c.giveUp w .cancelled)
  | unsent {r : Message} {w : Waiter} {e : TransportError} (send : c.wire.send r = some (.error e)) :
      c.Advance cancelled (.sending r w) (c.giveUp w (.communication e))
  | sent {r : Message} {w : Waiter} {wire : Wire} (send : c.wire.send r = some (.ok wire)) :
      c.Advance cancelled (.sending r w) {
        connection := { c with wire }
        exchange := .waiting w (c.timer.wake c.clock c.timeout)
        sent := some r }
  | fetched {w : Waiter} {deadline : Nat} {outcome : Outcome} {exchanges : Exchanges}
      (fetch : c.exchanges.fetch w cancelled (deadline ≤ c.clock) = some (outcome, exchanges)) :
      c.Advance cancelled (.waiting w deadline) {
        connection := { c with exchanges }
        exchange := .ended (outcome.bind Exchange.judge) }

/-- Ids are tried until one can be registered; until then the table stays as it is. -/
theorem allocate_cases (attempts : Nat) (ids : MessageIds) (x : Exchanges) :
    (∃ ids', allocate attempts ids x = (none, ids', x)) ∨
      ∃ w ids' y, allocate attempts ids x = (some w, ids', y) ∧ x.register w.id = .ok (w, y) := by
  induction attempts generalizing ids with
  | zero => exact .inl ⟨ids, rfl⟩
  | succ attempts ih =>
    unfold allocate
    by_cases hid : ids.take.1 ∈ x.ids
    · have hused := Exchanges.register_of_mem_ids hid
      dsimp only
      rw [hused]
      exact ih ids.take.2
    · have hfree := Exchanges.register_of_ids hid
      dsimp only
      rw [hfree]
      exact .inr ⟨_, _, _, rfl, hfree⟩

theorem Connection.advance_of_step {c : Connection} {cancelled : Bool} {e : Exchange}
    {c' : Connection.Stepped} (hs : c.step cancelled e = some c') : c.Advance cancelled e c' := by
  cases e with
  | begun r =>
    unfold step at hs
    dsimp only at hs
    split at hs
    · cases hs
      exact .refused
    · split at hs
      · cases hs
        exact .refused
      · cases hs
        exact .checked
  | checked r =>
    unfold step at hs
    rcases allocate_cases maxIdAttempts c.messageIds c.exchanges with
      ⟨ids, hnone⟩ | ⟨w, ids, y, hsome, hregister⟩
    · rw [hnone] at hs
      cases hs
      exact .exhausted
    · rw [hsome] at hs
      cases hs
      exact .registered hregister
  | registered r w =>
    unfold step at hs
    dsimp only at hs
    split at hs
    · rename_i hclosed
      cases hs
      exact .shut hclosed
    · rename_i hclosed
      cases hs
      exact .passed (by simpa using hclosed)
  | sending r w =>
    unfold step at hs
    dsimp only at hs
    split at hs
    · rename_i hstop
      cases hs
      exact .stopped hstop
    · split at hs
      · cases hs
      · rename_i hsend
        cases hs
        exact .unsent hsend
      · rename_i hsend
        cases hs
        exact .sent hsend
  | waiting w deadline =>
    unfold step at hs
    dsimp only at hs
    split at hs
    · cases hs
    · rename_i hfetch
      cases hs
      exact .fetched hfetch
  | ended outcome => cases hs

/-- Whatever a waiter gets, it is released with it. -/
theorem Exchanges.fetch_releases {x y : Exchanges} {w : Waiter} {cancelled expired : Bool}
    {r : Outcome} (h : x.fetch w cancelled expired = some (r, y)) : y = x.release w := by
  unfold fetch at h
  repeat' split at h
  all_goals cases h
  all_goals rfl

/-- A step of an exchange leaves the table, registers a waiter, or releases its own. -/
theorem Connection.Advance.table {c : Connection} {cancelled : Bool} {e : Exchange}
    {c' : Connection.Stepped} (h : c.Advance cancelled e c') :
    (c'.connection.exchanges = c.exchanges ∧ c'.exchange.waiter? = e.waiter?) ∨
    (∃ w, c.exchanges.register w.id = .ok (w, c'.connection.exchanges) ∧ e.waiter? = none ∧
      c'.exchange.waiter? = some w) ∨
    ∃ w, e.waiter? = some w ∧ c'.connection.exchanges = c.exchanges.release w ∧
      c'.exchange.waiter? = none := by
  cases h with
  | registered hregister => exact .inr (.inl ⟨_, hregister, rfl, rfl⟩)
  | shut _ => exact .inr (.inr ⟨_, rfl, rfl, rfl⟩)
  | stopped _ => exact .inr (.inr ⟨_, rfl, rfl, rfl⟩)
  | unsent _ => exact .inr (.inr ⟨_, rfl, rfl, rfl⟩)
  | fetched hfetch => exact .inr (.inr ⟨_, rfl, Exchanges.fetch_releases hfetch, rfl⟩)
  | _ => exact .inl ⟨rfl, rfl⟩

/-- No step of an exchange opens or closes the connection. -/
theorem Connection.Advance.closed_eq {c : Connection} {cancelled : Bool} {e : Exchange}
    {c' : Connection.Stepped} (h : c.Advance cancelled e c') : c'.connection.closed = c.closed := by
  cases h <;> rfl

namespace Session

variable {s s' s'' : Session} {task t : Task} {m : Move}

/-! One move, as the exchange of one task sees it. -/

/-- What a move makes of the exchange of one task. -/
inductive Passage (s s' : Session) (m : Move) (t : Task) : Prop
  | kept (same : s'.exchangeOf t = s.exchangeOf t)
  | advanced {e : Exchange} {c : Connection.Stepped} (mover : m = .step t)
      (before : s.exchangeOf t = some e) (advance : s.connection.Advance (s.isCancelled t) e c)
      (connection : s'.connection = c.connection) (after : s'.exchangeOf t = some c.exchange)
  | turned (mover : m = .step t) (before : ∀ e, s.exchangeOf t = some e → ∃ o, e = .ended o)
      (after : ∀ e, s'.exchangeOf t = some e → ∃ r, e = .begun r)
  | dropped (n : Nat) (task : t = .operation n) (mover : m = .input (.abort n))
      (gone : s'.exchangeOf t = none)

theorem passage_of_move (hs : s.move m = some s') (t : Task) : Passage s s' m t := by
  cases effect_of_move hs with
  | @exchanged task e c only before step connection after =>
    by_cases ht : t = task
    · subst ht
      exact .advanced rfl before (Connection.advance_of_step step) connection after
    · exact .kept (only.others t ht)
  | @turned task own only before connection after =>
    by_cases ht : t = task
    · subst ht
      exact .turned rfl before after
    · exact .kept (only.others t ht)
  | received step kept => exact .kept (kept t)
  | @dropped n only exchanges closed wire after =>
    by_cases ht : t = .operation n
    · subst ht
      exact .dropped n rfl rfl after
    · exact .kept (only.others t ht)
  | disturbed kept _ _ _ _ _ => exact .kept (kept t)

/-- A move that is neither a step of a task nor its end leaves the exchange of the task alone. -/
theorem exchangeOf_of_other (hs : s.move m = some s') (hm : m ≠ .step t)
    (hdrop : ∀ n, t = .operation n → m ≠ .input (.abort n)) : s'.exchangeOf t = s.exchangeOf t := by
  cases passage_of_move hs t with
  | kept same => exact same
  | advanced mover _ _ _ _ => exact absurd mover hm
  | turned mover _ _ => exact absurd mover hm
  | dropped n task mover _ => exact absurd mover (hdrop n task)

/-! One step of the receiver. -/

/-- All that a step of the receiver can do. -/
inductive Reception (s s' : Session) : Prop
  | routed (m : Message) (wire : Wire) (phase : s.receiver = .listening) (going : s.shutdown = false)
      (arrival : s.connection.wire.receive = .ok (.message m, wire))
      (next : s' = (s.setWire wire).route m)
  | stopped (e : ClientError) (wire : Wire) (phase : s.receiver = .listening)
      (quiet : s.shutdown = true ∨ ∀ m wire, s.connection.wire.receive ≠ .ok (.message m, wire))
      (next : s' = { s.setWire wire with receiver := .failing e })
  | replied (reply : Message) (wire : Wire) (log : Array Event) (phase : s.receiver = .replying reply)
      (next : s' = { s.setWire wire with receiver := .listening, log })
  | shut (e : ClientError) (phase : s.receiver = .failing e)
      (next : s' = { s with
        connection := { s.connection with closed := true }, receiver := .collecting e })
  | collected (e : ClientError) (phase : s.receiver = .collecting e)
      (next : s' = { s with receiver := .ending e s.connection.exchanges.ids })
  | failed (e : ClientError) (id : UInt16) (ids : List UInt16)
      (phase : s.receiver = .ending e (id :: ids))
      (next : s' = { s.setExchanges (s.connection.exchanges.resolve id (.error e)).2 with
        receiver := .ending e ids })
  | drained (e : ClientError) (phase : s.receiver = .ending e [])
      (next : s' = { s with receiver := .clearing })
  | cleared (phase : s.receiver = .clearing)
      (next : s' = { s with subscriptions := s.subscriptions.clear, receiver := .closing })
  | closed (phase : s.receiver = .closing)
      (next : s' = { s.setPipe s.connection.wire.pipe.close with receiver := .ended })

theorem reception_of_step (hs : s.stepReceiver = some s') : Reception s s' := by
  unfold stepReceiver at hs
  cases hphase : s.receiver with
  | listening =>
    simp only [hphase, listen] at hs
    split at hs
    · rename_i hstop
      cases hs
      exact .stopped _ s.connection.wire hphase (.inl hstop) rfl
    · rename_i hgoing
      split at hs
      · rename_i harrival
        cases hs
        refine .stopped _ s.connection.wire hphase (.inr ?_) rfl
        simp [harrival]
      · cases hs
      · rename_i harrival
        cases hs
        refine .stopped _ _ hphase (.inr ?_) rfl
        simp [harrival]
      · rename_i harrival
        cases hs
        exact .routed _ _ hphase (by simpa using hgoing) harrival rfl
  | replying reply =>
    simp only [hphase] at hs
    split at hs
    · cases hs
    · cases hs
      exact .replied reply s.connection.wire s.log hphase rfl
    · cases hs
      exact .replied reply _ _ hphase rfl
  | failing e =>
    rw [hphase] at hs
    cases hs
    exact .shut e hphase rfl
  | collecting e =>
    rw [hphase] at hs
    cases hs
    exact .collected e hphase rfl
  | ending e ids =>
    rw [hphase] at hs
    cases ids with
    | nil =>
      cases hs
      exact .drained e hphase rfl
    | cons id ids =>
      cases hs
      exact .failed e id ids hphase rfl
  | clearing =>
    rw [hphase] at hs
    cases hs
    exact .cleared hphase rfl
  | closing =>
    rw [hphase] at hs
    cases hs
    exact .closed hphase rfl
  | ended =>
    rw [hphase] at hs
    cases hs

/-! What a move routes, and what it does to the table. -/

/-- The message that a move takes from the wire and routes. -/
def routed (s : Session) : Move → List Message
  | .step .receiver =>
    match s.receiver, s.shutdown, s.connection.wire.receive with
    | .listening, false, .ok (.message m, _) => [m]
    | _, _, _ => []
  | _ => []

/-- The acknowledgement or reset that a move routes. -/
def answers (s : Session) (m : Move) : List Message := (s.routed m).filter Message.isAnswer

/-- The error with which a move begins to end the connection. -/
def failures (s : Session) : Move → List ClientError
  | .step .receiver =>
    match s.receiver with
    | .failing e => [e]
    | _ => []
  | _ => []

/-- What a move may do to the table: nothing; register the waiter of a task, or release it; deliver
an answer; or end one exchange because the connection has come to its end. -/
inductive TableMove (s s' : Session) (m : Move) : Prop
  | kept (quiet : s.answers m = []) (exchanges : s'.connection.exchanges = s.connection.exchanges)
      (waiters : ∀ t, s'.waiterOf t = s.waiterOf t)
  | registered (task : Task) (w : Waiter) (quiet : s.answers m = []) (free : s.waiterOf task = none)
      (register : s.connection.exchanges.register w.id = .ok (w, s'.connection.exchanges))
      (own : s'.waiterOf task = some w) (others : ∀ t, t ≠ task → s'.waiterOf t = s.waiterOf t)
  | released (task : Task) (w : Waiter) (quiet : s.answers m = []) (own : s.waiterOf task = some w)
      (exchanges : s'.connection.exchanges = s.connection.exchanges.release w)
      (gone : s'.waiterOf task = none) (others : ∀ t, t ≠ task → s'.waiterOf t = s.waiterOf t)
  | answered (a : Message) (mover : m = .step .receiver) (answer : s.answers m = [a])
      (phase : s.receiver = .listening)
      (exchanges : s'.connection.exchanges = (s.connection.exchanges.complete a).2)
      (waiters : ∀ t, s'.waiterOf t = s.waiterOf t)
  | failed (e : ClientError) (id : UInt16) (ids : List UInt16) (mover : m = .step .receiver)
      (quiet : s.answers m = []) (phase : s.receiver = .ending e (id :: ids))
      (exchanges : s'.connection.exchanges = (s.connection.exchanges.resolve id (.error e)).2)
      (waiters : ∀ t, s'.waiterOf t = s.waiterOf t)

theorem waiterOf_eq {e : Exchange} (h : s.exchangeOf task = some e) :
    s.waiterOf task = e.waiter? := by
  unfold waiterOf
  rw [h, Option.bind_some]

theorem waiterOf_of_exchangeOf {t t' : Task} (h : s'.exchangeOf t' = s.exchangeOf t) :
    s'.waiterOf t' = s.waiterOf t := by
  unfold waiterOf
  rw [h]

theorem answers_of_ne (h : task ≠ .receiver) : s.answers (.step task) = [] := by
  cases task with
  | receiver => exact absurd rfl h
  | _ => rfl

/-- Messages are routed only while the receiver listens. -/
theorem routed_of_phase (h : s.receiver ≠ .listening) : s.routed m = [] := by
  unfold routed
  split
  · split
    · rename_i hphase _ _
      exact absurd hphase h
    · rfl
  · rfl

theorem routed_of_arrival {a : Message} {wire : Wire} (phase : s.receiver = .listening)
    (going : s.shutdown = false) (arrival : s.connection.wire.receive = .ok (.message a, wire)) :
    s.routed (.step .receiver) = [a] := by
  unfold routed
  rw [phase, going, arrival]

/-- A receiver that is to stop, or that has nothing to receive, routes nothing. -/
theorem routed_of_quiet
    (h : s.shutdown = true ∨ ∀ a wire, s.connection.wire.receive ≠ .ok (.message a, wire)) :
    s.routed m = [] := by
  unfold routed
  split
  · split
    · rename_i hgoing harrival
      rcases h with hstop | hnothing
      · rw [hstop] at hgoing
        cases hgoing
      · exact absurd harrival (hnothing _ _)
    · rfl
  · rfl

theorem answers_of_phase (h : s.receiver ≠ .listening) : s.answers m = [] := by
  unfold answers
  rw [routed_of_phase h, List.filter_nil]

theorem exchangeOf_ne_receiver {e : Exchange} (h : s.exchangeOf task = some e) :
    task ≠ .receiver := by
  rintro rfl
  cases h

theorem route_answer {a : Message} (h : a.isAnswer = true) (s : Session) :
    s.route a = s.setExchanges (s.connection.exchanges.complete a).2 := by
  unfold route
  unfold Message.isAnswer at h
  cases ha : a.type <;> simp_all

theorem route_other {a : Message} (h : a.isAnswer = false) (s : Session) :
    (s.route a).connection = s.connection := by
  unfold route
  unfold Message.isAnswer at h
  cases ha : a.type <;> simp_all

/-- What a step of the receiver does to the table. -/
theorem tableMove_of_reception (h : Reception s s') (hkept : ∀ t, s'.exchangeOf t = s.exchangeOf t) :
    TableMove s s' (.step .receiver) := by
  have hwaiters (t : Task) : s'.waiterOf t = s.waiterOf t := waiterOf_of_exchangeOf (hkept t)
  have hrest (hphase : s.receiver ≠ .listening)
      (hsame : s'.connection.exchanges = s.connection.exchanges) :
      TableMove s s' (.step .receiver) := .kept (answers_of_phase hphase) hsame hwaiters
  cases h with
  | routed a wire phase going arrival next =>
    have hrouted : s.routed (.step .receiver) = [a] := routed_of_arrival phase going arrival
    cases ha : a.isAnswer with
    | true =>
      refine .answered a rfl ?_ phase ?_ hwaiters
      · unfold answers
        rw [hrouted]
        simp [ha]
      · rw [next, route_answer ha]
        rfl
    | false =>
      refine .kept ?_ ?_ hwaiters
      · unfold answers
        rw [hrouted]
        simp [ha]
      · rw [next, route_other ha]
        rfl
  | stopped e wire phase quiet next =>
    refine .kept ?_ (by rw [next]; rfl) hwaiters
    unfold answers
    rw [routed_of_quiet quiet, List.filter_nil]
  | failed e id ids phase next =>
    refine .failed e id ids rfl (answers_of_phase ?_) phase (by rw [next]; rfl) hwaiters
    rw [phase]
    nofun
  | replied _ _ _ phase next => exact hrest (by rw [phase]; nofun) (by rw [next]; rfl)
  | shut _ phase next => exact hrest (by rw [phase]; nofun) (by rw [next])
  | collected _ phase next => exact hrest (by rw [phase]; nofun) (by rw [next])
  | drained _ phase next => exact hrest (by rw [phase]; nofun) (by rw [next])
  | cleared phase next => exact hrest (by rw [phase]; nofun) (by rw [next])
  | closed phase next => exact hrest (by rw [phase]; nofun) (by rw [next]; rfl)

/-- What any move does to the table. -/
theorem tableMove_of_move (hs : s.move m = some s') : TableMove s s' m := by
  cases effect_of_move hs with
  | @exchanged task e c only before step connection after =>
    have hquiet := answers_of_ne (s := s) (exchangeOf_ne_receiver before)
    have hbefore := waiterOf_eq before
    have hafter := waiterOf_eq after
    have hothers (t : Task) (ht : t ≠ task) : s'.waiterOf t = s.waiterOf t :=
      waiterOf_of_exchangeOf (only.others t ht)
    rcases (Connection.advance_of_step step).table with
      ⟨hsame, hw⟩ | ⟨w, hregister, hfree, hw⟩ | ⟨w, hown, hrelease, hgone⟩
    · refine .kept hquiet (by rw [connection, hsame]) ?_
      intro t
      by_cases ht : t = task
      · rw [ht, hafter, hw, hbefore]
      · exact hothers t ht
    · exact .registered task w hquiet (hbefore.trans hfree) (by rw [connection]; exact hregister)
        (hafter.trans hw) hothers
    · exact .released task w hquiet (hbefore.trans hown) (by rw [connection]; exact hrelease)
        (hafter.trans hgone) hothers
  | @turned task own only before connection after =>
    refine .kept (answers_of_ne own) (by rw [connection]) ?_
    intro t
    by_cases ht : t = task
    · -- Neither an exchange that has ended nor one that has just begun has a waiter.
      have hnone (u : Session) (hu : ∀ e, u.exchangeOf task = some e → e.waiter? = none) :
          u.waiterOf task = none := by
        unfold waiterOf
        cases he : u.exchangeOf task with
        | none => rfl
        | some e => exact hu e he
      rw [ht, hnone s, hnone s']
      · intro e he
        obtain ⟨r, rfl⟩ := after e he
        rfl
      · intro e he
        obtain ⟨o, rfl⟩ := before e he
        rfl
    · exact waiterOf_of_exchangeOf (only.others t ht)
  | received step kept => exact tableMove_of_reception (reception_of_step step) kept
  | @dropped n only exchanges closed wire after =>
    have hgone : s'.waiterOf (.operation n) = none := by
      unfold waiterOf
      rw [after, Option.bind_none]
    have hothers (t : Task) (ht : t ≠ .operation n) : s'.waiterOf t = s.waiterOf t :=
      waiterOf_of_exchangeOf (only.others t ht)
    -- An operation that is dropped midway takes its entry with it.
    cases hw : s.waiterOf (.operation n) with
    | none =>
      rw [hw] at exchanges
      refine .kept rfl exchanges ?_
      intro t
      by_cases ht : t = .operation n
      · rw [ht, hgone, hw]
      · exact hothers t ht
    | some w =>
      rw [hw] at exchanges
      exact .released (.operation n) w rfl hw exchanges hgone hothers
  | disturbed kept receiver exchanges closed shut toPeer =>
    exact .kept rfl exchanges fun t => waiterOf_of_exchangeOf (kept t)

end Session

end Coap

import Coap.Proofs.ExchangeLedger

/-! Exchanges while the connection comes to its end: those that found it open lose their entries
before the receiver is done, and then all that are left end by a few steps of their own, with
nothing sent. -/
namespace Coap

namespace Exchange

/-- The waiter of an exchange that has found the connection open: it is about to send, or waits. -/
def passed? : Exchange → Option Waiter
  | .sending _ w | .waiting w _ => some w
  | .begun _ | .checked _ | .registered _ _ | .ended _ => none

/-- Whether an exchange has yet to look whether the connection is closed. -/
def Early : Exchange → Prop
  | .begun _ | .checked _ | .registered _ _ => True
  | .sending _ _ | .waiting _ _ | .ended _ => False

/-- The number of steps in which an exchange ends once the connection has come to its end. -/
def bound : Exchange → Nat
  | .begun _ => 3
  | .checked _ => 2
  | .registered _ _ | .sending _ _ | .waiting _ _ => 1
  | .ended _ => 0

/-- With what an exchange may end then: a wait with the failure, or with what the first answer to
its id means, and all others with an error. -/
def Allows (answered : Waiter → List Message) (failed : List ClientError) (o : Outcome) :
    Exchange → Prop
  | .waiting w _ => (∃ e, failed = [e] ∧ o = .error e) ∨
      ∃ a, (answered w).head? = some a ∧ o = judge a
  | .begun _ | .checked _ | .registered _ _ | .sending _ _ | .ended _ => ∃ e, o = .error e

theorem bound_pos {e : Exchange} (h : ∀ o, e ≠ .ended o) : 0 < e.bound := by
  cases e with
  | ended o => exact absurd rfl (h o)
  | _ => exact Nat.succ_pos _

theorem Early.going {e : Exchange} (h : e.Early) (o : Outcome) : e ≠ .ended o := by
  rintro rfl
  exact h

theorem Early.allows_iff {e : Exchange} (h : e.Early) {answered : Waiter → List Message}
    {failed : List ClientError} {o : Outcome} :
    e.Allows answered failed o ↔ ∃ err, o = .error err := by
  cases e with
  | waiting w d => exact h.elim
  | _ => exact Iff.rfl

theorem waiter?_of_passed? {e : Exchange} {w : Waiter} (h : e.passed? = some w) :
    e.waiter? = some w := by
  cases e with
  | sending r v => exact h
  | waiting v d => exact h
  | _ => cases h

end Exchange

/-! Steps of an exchange on a connection that is closed. -/

theorem send_of_closed {wire wire' : Wire} {m : Message} (h : wire.pipe.closed = true) :
    wire.send m ≠ some (.ok wire') := by
  intro hsend
  unfold Wire.send Pipe.send at hsend
  rw [h] at hsend
  split at hsend
  · cases hsend
  · split at hsend <;> cases hsend

/-- A message that is sent changes the pipe by that message alone. -/
theorem closed_of_send {wire wire' : Wire} {m : Message} (h : wire.send m = some (.ok wire')) :
    wire'.pipe.closed = wire.pipe.closed := by
  cases hclosed : wire.pipe.closed with
  | true => exact absurd h (send_of_closed hclosed)
  | false =>
    unfold Wire.send Pipe.send at h
    rw [hclosed] at h
    split at h
    · cases h
    · split at h
      · cases h
      · split at h
        · cases h
        · cases h
          rfl

namespace Connection.Advance

variable {c : Connection} {cancelled : Bool} {e : Exchange} {c' : Stepped}

theorem pipe_closed (h : c.Advance cancelled e c') :
    c'.connection.wire.pipe.closed = c.wire.pipe.closed := by
  cases h with
  | sent send => exact closed_of_send send
  | _ => rfl

/-- Nothing is sent on a pipe that is closed. -/
theorem pipe_eq (h : c.Advance cancelled e c') (hpipe : c.wire.pipe.closed = true) :
    c'.connection.wire.pipe = c.wire.pipe := by
  cases h with
  | sent send => exact absurd send (send_of_closed hpipe)
  | _ => rfl

/-- Nobody passes the check of a closed connection. -/
theorem passed_of_closed {w : Waiter} (h : c.Advance cancelled e c') (hclosed : c.closed = true)
    (hw : c'.exchange.passed? = some w) : e.passed? = some w := by
  cases h with
  | passed hopen =>
    rw [hclosed] at hopen
    cases hopen
  | sent send => exact hw
  | _ => cases hw

end Connection.Advance

/-- Whether a move is a step of a task. -/
def Move.isStepOf (t : Task) : Move → Bool
  | .step t' => t' == t
  | .input _ => false

theorem Move.isStepOf_step (t : Task) : (Move.step t).isStepOf t = true := beq_self_eq_true t

theorem Move.eq_of_isStepOf {t : Task} {m : Move} (h : m.isStepOf t = true) : m = .step t := by
  cases m with
  | step t' => rw [eq_of_beq h]
  | input i => cases h

namespace Session

/-- The waiter of a task whose exchange has found the connection open. -/
def passedOf (s : Session) (t : Task) : Option Waiter := (s.exchangeOf t).bind Exchange.passed?

/-- An exchange is about to send, but the network keeps its message waiting, and its task has not been
told to stop. -/
def HeldBack (s : Session) (t : Task) (e : Exchange) : Prop :=
  (∃ r w, e = .sending r w) ∧ s.connection.wire.held = true ∧ s.isCancelled t = false

/-- How far the end of the connection has come with the exchanges that found it open: those that
still have their entries are among the ones that are being ended, and later none has; and at last
the pipe is closed. -/
def Drained (s : Session) : Prop :=
  match s.receiver with
  | .listening | .replying _ | .failing _ | .collecting _ => True
  | .ending _ ids => ∀ t w, s.passedOf t = some w → w ∈ s.connection.exchanges.pending → w.id ∈ ids
  | .clearing | .closing => ∀ t w, s.passedOf t = some w → w ∉ s.connection.exchanges.pending
  | .ended => (∀ t w, s.passedOf t = some w → w ∉ s.connection.exchanges.pending) ∧
      s.connection.wire.pipe.closed = true

variable {first s s' : Session} {past moves : List Move} {m : Move} {t : Task} {e : Exchange}
  {w : Waiter} {failed : List ClientError}

theorem passedOf_eq (he : s.exchangeOf t = some e) : s.passedOf t = e.passed? := by
  unfold passedOf
  rw [he, Option.bind_some]

theorem waiterOf_of_passedOf (h : s.passedOf t = some w) : s.waiterOf t = some w := by
  obtain ⟨e, he, hw⟩ := Option.bind_eq_some_iff.mp h
  rw [waiterOf_eq he]
  exact Exchange.waiter?_of_passed? hw

/-- No move gives a waiter its entry back. -/
theorem pending_of_move (hseated : s.Seated) (hw : s.waiterOf t = some w) (hs : s.move m = some s')
    (hp : w ∈ s'.connection.exchanges.pending) : w ∈ s.connection.exchanges.pending := by
  obtain ⟨⟨live, hlive, hmem⟩, -⟩ := hseated
  have hseat : w ∈ live := (hmem w).mpr ⟨t, hw⟩
  cases tableMove_of_move hs with
  | kept _ exchanges _ => rwa [exchanges] at hp
  | registered _ v _ _ register _ _ => exact (Exchanges.alike_register hlive hseat register).1.mp hp
  | released _ v _ _ exchanges _ _ =>
    rw [exchanges] at hp
    exact ((Exchanges.pending_release _ v w).mp hp).1
  | answered a _ _ _ exchanges _ =>
    rw [exchanges] at hp
    exact ((hlive.decides_resolve a.id _).pending w |>.mp hp).1
  | failed _ id _ _ _ _ exchanges _ =>
    rw [exchanges] at hp
    exact ((hlive.decides_resolve id _).pending w |>.mp hp).1

/-- Nobody passes the check once the connection is closed. -/
theorem passedOf_of_move (hclosed : s.connection.closed = true) (hs : s.move m = some s')
    (hw : s'.passedOf t = some w) : s.passedOf t = some w := by
  obtain ⟨e, he, hpassed⟩ := Option.bind_eq_some_iff.mp hw
  cases passage_of_move hs t with
  | kept same =>
    rw [same] at he
    exact (passedOf_eq he).trans hpassed
  | advanced _ before advance _ after =>
    rw [after] at he
    cases he
    exact (passedOf_eq before).trans (advance.passed_of_closed hclosed hpassed)
  | turned _ _ after =>
    obtain ⟨r, rfl⟩ := after e he
    cases hpassed
  | dropped _ _ _ gone =>
    rw [gone] at he
    cases he

/-- A move of anybody but the receiver leaves the receiver and the client's end of the pipe as they
are. -/
theorem receiver_of_move (hs : s.move m = some s') (hm : m ≠ .step .receiver) :
    s'.receiver = s.receiver ∧
      s'.connection.wire.pipe.closed = s.connection.wire.pipe.closed := by
  cases effect_of_move hs with
  | exchanged only before step connection after =>
    rw [connection]
    exact ⟨only.receiver, (Connection.advance_of_step step).pipe_closed⟩
  | turned own only before connection after =>
    rw [connection]
    exact ⟨only.receiver, rfl⟩
  | received => exact absurd rfl hm
  | dropped only exchanges closed wire after =>
    rw [wire]
    exact ⟨only.receiver, rfl⟩
  | disturbed kept receiver exchanges closed shut toPeer => exact ⟨receiver, shut⟩

/-- On a closed connection, an exchange that has passed and has its entry had both before. -/
theorem passed_pending_of_move (hseated : s.Seated) (hclosed : s.connection.closed = true)
    (hs : s.move m = some s') (hw : s'.passedOf t = some w)
    (hp : w ∈ s'.connection.exchanges.pending) :
    s.passedOf t = some w ∧ w ∈ s.connection.exchanges.pending := by
  have hold := passedOf_of_move hclosed hs hw
  exact ⟨hold, pending_of_move hseated (waiterOf_of_passedOf hold) hs hp⟩

/-- Once none of them has an entry, none gets one. -/
theorem none_pending_of_move (hseated : s.Seated) (hclosed : s.connection.closed = true)
    (hs : s.move m = some s')
    (h : ∀ t w, s.passedOf t = some w → w ∉ s.connection.exchanges.pending) :
    ∀ t w, s'.passedOf t = some w → w ∉ s'.connection.exchanges.pending := by
  intro t w hw hp
  obtain ⟨hold, hpending⟩ := passed_pending_of_move hseated hclosed hs hw hp
  exact h t w hold hpending

/-- A step of the receiver drains one entry more, or takes note of all there are. -/
theorem Drained.receive (h : s.Drained) (hseated : s.Seated) (hphase : Phase failed s)
    (hs : s.move (.step .receiver) = some s') : s'.Drained := by
  unfold Phase at hphase
  unfold Drained at h ⊢
  cases reception_of_step hs with
  | routed a wire phase going arrival next =>
    rcases receiver_of_route phase next with hopen | ⟨reply, hopen⟩
    · rw [hopen]
      trivial
    · rw [hopen]
      trivial
  | stopped e wire phase quiet next =>
    rw [next]
    trivial
  | replied reply wire log phase next =>
    rw [next]
    trivial
  | shut e phase next =>
    rw [next]
    trivial
  | collected e phase next =>
    rw [next]
    intro t w _ hp
    exact List.mem_map.mpr ⟨w, hp, rfl⟩
  | failed e id ids phase next =>
    rw [phase] at h hphase
    obtain ⟨⟨live, hlive, hmem⟩, -⟩ := hseated
    have hreceiver : s'.receiver = .ending e ids := by rw [next]
    have hexchanges : s'.connection.exchanges =
        (s.connection.exchanges.resolve id (.error e)).2 := by
      rw [next]
      rfl
    rw [hreceiver]
    intro t w hw hp
    have hold := passedOf_of_move hphase.1 hs hw
    rw [hexchanges] at hp
    -- The entry with the first id has just been taken out, so the others' ids are left.
    obtain ⟨hpending, hne⟩ := (hlive.decides_resolve id _).pending w |>.mp hp
    rcases List.mem_cons.mp (h t w hold hpending) with hid | hid
    · exact absurd hid hne
    · exact hid
  | drained e phase next =>
    rw [phase] at h hphase
    have hreceiver : s'.receiver = .clearing := by rw [next]
    rw [hreceiver]
    intro t w hw hp
    obtain ⟨hold, hpending⟩ := passed_pending_of_move hseated hphase.1 hs hw hp
    cases h t w hold hpending
  | cleared phase next =>
    rw [phase] at h hphase
    have hreceiver : s'.receiver = .closing := by rw [next]
    rw [hreceiver]
    exact none_pending_of_move hseated hphase.1 hs h
  | closed phase next =>
    rw [phase] at h hphase
    have hreceiver : s'.receiver = .ended := by rw [next]
    rw [hreceiver]
    refine ⟨none_pending_of_move hseated hphase.1 hs h, ?_⟩
    rw [next]
    rfl

/-- A move keeps what has been drained, or drains more. -/
theorem Drained.move (h : s.Drained) (hseated : s.Seated) (hphase : Phase failed s)
    (hs : s.move m = some s') : s'.Drained := by
  by_cases hm : m = .step .receiver
  · subst hm
    exact h.receive hseated hphase hs
  · obtain ⟨hreceiver, hpipe⟩ := receiver_of_move hs hm
    unfold Phase at hphase
    unfold Drained at h ⊢
    rw [hreceiver]
    cases hphase' : s.receiver with
    | ending e ids =>
      rw [hphase'] at h hphase
      intro t w hw hp
      obtain ⟨hold, hpending⟩ := passed_pending_of_move hseated hphase.1 hs hw hp
      exact h t w hold hpending
    | clearing =>
      rw [hphase'] at h hphase
      exact none_pending_of_move hseated hphase.1 hs h
    | closing =>
      rw [hphase'] at h hphase
      exact none_pending_of_move hseated hphase.1 hs h
    | ended =>
      rw [hphase'] at h hphase
      exact ⟨none_pending_of_move hseated hphase.1 hs h.1, hpipe.trans h.2⟩
    | _ => trivial

/-! After the receiver has come to its end. -/

/-- A client whose receiver has come to its end, with the moves that led there. -/
structure Ended (first : Session) (past : List Move) (s : Session) : Prop where
  run : first.run past = some s
  kept : Kept first past s
  receiver : s.receiver = .ended
  drained : ∀ t w, s.passedOf t = some w → w ∉ s.connection.exchanges.pending
  pipe : s.connection.wire.pipe.closed = true

theorem Ended.closed (h : Ended first past s) : s.connection.closed = true := by
  have hphase := h.kept.phase
  unfold Phase at hphase
  rw [h.receiver] at hphase
  exact hphase.1

/-- Nothing is routed any more, and nothing fails. -/
theorem Ended.quiet (h : Ended first past s) (m : Move) : s.answers m = [] ∧ s.failures m = [] := by
  refine ⟨answers_of_phase ?_, failures_of_phase ?_⟩
  · rw [h.receiver]
    nofun
  · rw [h.receiver]
    nofun

theorem Ended.not_receiver (h : Ended first past s) (hs : s.move m = some s') :
    m ≠ .step .receiver := by
  rintro rfl
  have hnone : s.stepReceiver = none := by
    unfold stepReceiver
    rw [h.receiver]
  change s.stepReceiver = some s' at hs
  rw [hnone] at hs
  cases hs

/-- The end lasts. -/
theorem Ended.move (h : Ended first past s) (hs : s.move m = some s') :
    Ended first (past ++ [m]) s' := by
  obtain ⟨hreceiver, -⟩ := receiver_of_move hs (h.not_receiver hs)
  have hended : s'.receiver = .ended := hreceiver.trans h.receiver
  have hdrained : s.Drained := by
    unfold Drained
    rw [h.receiver]
    exact ⟨h.drained, h.pipe⟩
  have hdrained' := hdrained.move h.kept.seated h.kept.phase hs
  unfold Drained at hdrained'
  rw [hended] at hdrained'
  refine ⟨?_, h.kept.move h.run hs, hended, hdrained'.1, hdrained'.2⟩
  rw [run_concat, h.run]
  exact hs

theorem Ended.answersTo_eq (h : Ended first past s) (m : Move) (w : Waiter) :
    answersTo first w (past ++ [m]) = answersTo first w past := by
  unfold answersTo
  rw [along_concat _ h.run, answersFor_of_quiet (h.quiet m).1, List.append_nil]

theorem Ended.failuresOf_eq (h : Ended first past s) (m : Move) :
    failuresOf first (past ++ [m]) = failuresOf first past := by
  unfold failuresOf
  rw [along_concat _ h.run, (h.quiet m).2, List.append_nil]

/-- Nothing is sent any more. -/
theorem Ended.toPeer_eq (h : Ended first past s) (hs : s.move m = some s') :
    s'.connection.wire.pipe.toPeer = s.connection.wire.pipe.toPeer := by
  cases effect_of_move hs with
  | exchanged only before step connection after =>
    rw [connection, (Connection.advance_of_step step).pipe_eq h.pipe]
  | turned own only before connection after => rw [connection]
  | received => exact absurd rfl (h.not_receiver hs)
  | dropped only exchanges closed wire after => rw [wire]
  | disturbed kept receiver exchanges closed shut toPeer => exact toPeer

/-- The entry of an exchange that had passed is gone, so its result is there. -/
theorem Ended.decided (h : Ended first past s) (hpassed : s.passedOf t = some w) :
    ∃ r, s.connection.exchanges.Decided w r ∧
      ((∃ e, failuresOf first past = [e] ∧ r = .error e) ∨
        ∃ a, (answersTo first w past).head? = some a ∧ r = .ok a) := by
  rcases h.kept.ledger.accounted t w (waiterOf_of_passedOf hpassed) with
    ⟨hu, -⟩ | ⟨a, hd, hfirst⟩ | ⟨e, hd, -, hfailed⟩
  · exact absurd hu.1 (h.drained t w hpassed)
  · exact ⟨.ok a, hd, .inr ⟨a, hfirst, rfl⟩⟩
  · exact ⟨.error e, hd, .inl ⟨e, hfailed, rfl⟩⟩

/-- One step of an exchange after the end: it is over, or nearer to it without having passed the
check. -/
theorem Ended.step (h : Ended first past s) (he : s.exchangeOf t = some e)
    (hgoing : ∀ o, e ≠ .ended o) (hs : s.step t = some s') : ∃ e', s'.exchangeOf t = some e' ∧
      ((∃ o, e' = .ended o ∧ e.Allows (fun w => answersTo first w past) (failuresOf first past) o) ∨
        e'.Early ∧ e'.bound < e.bound ∧ e.Early) := by
  have hmove : s.move (.step t) = some s' := hs
  cases effect_of_move hmove with
  | received => cases he
  | turned own only before connection after =>
    obtain ⟨o, rfl⟩ := before e he
    exact absurd rfl (hgoing o)
  | @exchanged _ _ c only before step connection after =>
    rw [he] at before
    cases before
    refine ⟨c.exchange, after, ?_⟩
    cases Connection.advance_of_step step with
    | refused => exact .inl ⟨_, rfl, _, rfl⟩
    | checked => exact .inr ⟨trivial, Nat.lt_succ_self 2, trivial⟩
    | exhausted => exact .inl ⟨_, rfl, _, rfl⟩
    | registered _ => exact .inr ⟨trivial, Nat.lt_succ_self 1, trivial⟩
    | shut _ => exact .inl ⟨_, rfl, _, rfl⟩
    | passed hopen =>
      rw [h.closed] at hopen
      cases hopen
    | stopped _ => exact .inl ⟨_, rfl, _, rfl⟩
    | unsent _ => exact .inl ⟨_, rfl, _, rfl⟩
    | sent send => exact absurd send (send_of_closed h.pipe)
    | @fetched w deadline r x fetch =>
      refine .inl ⟨_, rfl, ?_⟩
      obtain ⟨result, hd, hresult⟩ := h.decided (passedOf_eq he)
      rw [Exchanges.fetch_of_decided hd] at fetch
      cases fetch
      rcases hresult with ⟨err, hfailed, rfl⟩ | ⟨a, hfirst, rfl⟩
      · exact .inl ⟨err, hfailed, rfl⟩
      · exact .inr ⟨a, hfirst, rfl⟩

/-- A message that the network keeps waiting, and that nobody has cancelled, is not sent. -/
theorem step_of_heldBack (h : s.HeldBack t e) : s.connection.step (s.isCancelled t) e = none := by
  obtain ⟨⟨r, w, rfl⟩, hheld, hcancelled⟩ := h
  simp [Connection.step, Wire.send, hheld, hcancelled]

/-- An exchange that has not ended has a step, unless the network makes its message wait. -/
theorem Ended.progress (h : Ended first past s) (he : s.exchangeOf t = some e)
    (hgoing : ∀ o, e ≠ .ended o) : (∃ s', s.step t = some s') ↔ ¬ s.HeldBack t e := by
  rw [← Option.isSome_iff_exists, isSome_step_of_exchangeOf he hgoing]
  constructor
  · intro hstep hheld
    rw [step_of_heldBack hheld] at hstep
    cases hstep
  intro hfree
  cases hc : s.connection.step (s.isCancelled t) e with
  | some c => rfl
  | none =>
    exfalso
    unfold Connection.step at hc
    cases e with
    | begun r =>
      dsimp only at hc
      split at hc
      · cases hc
      · split at hc <;> cases hc
    | checked r =>
      dsimp only at hc
      split at hc <;> cases hc
    | registered r w =>
      dsimp only at hc
      split at hc <;> cases hc
    | ended o => exact hgoing o rfl
    | sending r w =>
      dsimp only at hc
      split at hc
      · cases hc
      · rename_i hcancelled
        split at hc
        · rename_i hsend
          refine hfree ⟨⟨r, w, rfl⟩, ?_, by simpa using hcancelled⟩
          unfold Wire.send at hsend
          split at hsend
          · rename_i hheld
            exact hheld
          · split at hsend <;> cases hsend
        · cases hc
        · cases hc
    | waiting w deadline =>
      obtain ⟨r, hd, -⟩ := h.decided (passedOf_eq he)
      dsimp only at hc
      rw [Exchanges.fetch_of_decided hd] at hc
      cases hc

theorem wire_abort (s : Session) (k : Nat) : (s.abort k).connection.wire = s.connection.wire := by
  have habandon (e : Exchange) : (s.connection.abandon e).wire = s.connection.wire := by
    unfold Connection.abandon
    split <;> rfl
  unfold abort
  split
  · rfl
  · rename_i o ho
    cases hstage : o.stage with
    | running purpose transfer e => exact habandon e
    | _ => rfl

/-- After the end, the network goes on keeping messages waiting until it is told not to. -/
theorem Ended.held_of_move (h : Ended first past s) (hheld : s.connection.wire.held = true)
    (hm : ∀ held, m ≠ .input (.holdSends held)) (hs : s.move m = some s') :
    s'.connection.wire.held = true := by
  cases m with
  | step task =>
    cases effect_of_move hs with
    | exchanged only before step connection after =>
      rw [connection]
      cases Connection.advance_of_step step with
      | sent send => exact absurd send (send_of_closed h.pipe)
      | _ => exact hheld
    | turned own only before connection after =>
      rw [connection]
      exact hheld
    | received => exact absurd rfl (h.not_receiver hs)
  | input i =>
    cases hs
    cases i with
    | holdSends held => exact absurd rfl (hm held)
    | abort k => exact (congrArg Wire.held (wire_abort s k)).trans hheld
    | message a =>
      change ((s.arrive a).toOption.getD s).connection.wire.held = true
      unfold arrive Pipe.peerSend
      repeat' split
      all_goals exact hheld
    | _ => exact hheld

/-- An operation whose message the network keeps waiting stays where it is, whatever the tasks do,
whatever arrives and however late it is, until it is stopped or messages are let go. -/
theorem Ended.heldBack_of_run {n : Nat} (h : Ended first past s) (hn : n < s.nextSerial)
    (he : s.exchangeOf (.operation n) = some e) (hback : s.HeldBack (.operation n) e)
    (hmoves : ∀ i, .input i ∈ moves → stops n i = false ∧ ∀ held, i ≠ .holdSends held)
    (hs : s.run moves = some s') :
    s'.exchangeOf (.operation n) = some e ∧ s'.HeldBack (.operation n) e := by
  induction moves generalizing past s with
  | nil =>
    cases hs
    exact ⟨he, hback⟩
  | cons m rest ih =>
    obtain ⟨s₁, hs₁, hrest⟩ := Option.bind_eq_some_iff.mp hs
    have hown : m ≠ .step (.operation n) := by
      rintro rfl
      obtain ⟨r, w, rfl⟩ := hback.1
      exact (h.progress he nofun).mp ⟨s₁, hs₁⟩ hback
    have hother : concerns n m = false := by
      cases m with
      | step task =>
        have htask : task ≠ .operation n := fun ht => hown (congrArg Move.step ht)
        simpa [concerns] using htask
      | input i => exact (hmoves i List.mem_cons_self).1
    have hheld : s₁.connection.wire.held = true := by
      refine h.held_of_move hback.2.1 ?_ hs₁
      rintro held rfl
      exact (hmoves _ List.mem_cons_self).2 held rfl
    have hsame := same_move hother (Nat.ne_of_gt hn) hs₁
    have he₁ : s₁.exchangeOf (.operation n) = s.exchangeOf (.operation n) :=
      congrArg (Option.bind · Operation.exchange?) hsame.operation
    have hcancelled : s₁.isCancelled (.operation n) = s.isCancelled (.operation n) :=
      congrArg (Option.any Operation.cancelled) hsame.operation
    have hback₁ : s₁.HeldBack (.operation n) e := ⟨hback.1, hheld, hcancelled.trans hback.2.2⟩
    exact ih (h.move hs₁) (Nat.lt_of_lt_of_le hn hsame.serial) (he₁.trans he) hback₁
      (fun i hi => hmoves i (List.mem_cons_of_mem m hi)) hrest

/-- The outcome with which a move ends the exchange of a task. -/
def endings (t : Task) (s : Session) (m : Move) : List Outcome :=
  if m.isStepOf t then
    match (s.move m).bind fun s' => s'.exchangeOf t with
    | some (.ended o) => [o]
    | _ => []
  else []

theorem along_cons {α : Type} {f : Session → Move → List α} (hs : s.move m = some s')
    (rest : List Move) : along f s (m :: rest) = f s m ++ along f s' rest := by
  rw [along, hs]

/-- Whatever goes on after the end, an exchange that has not ended is over after a few steps of its
own, unless its operation is dropped. -/
theorem Ended.ends (h : Ended first past s) (he : s.exchangeOf t = some e)
    (hgoing : ∀ o, e ≠ .ended o) (hkeep : ∀ n, t = .operation n → .input (.abort n) ∉ moves)
    (hs : s.run moves = some s') :
    (along (endings t) s moves = [] ∧ moves.countP (Move.isStepOf t) < e.bound) ∨
      ∃ o, (along (endings t) s moves).head? = some o ∧
        e.Allows (fun w => answersTo first w past) (failuresOf first past) o := by
  induction moves generalizing past s e with
  | nil => exact .inl ⟨rfl, Exchange.bound_pos hgoing⟩
  | cons m rest ih =>
    obtain ⟨s₁, hs₁, hrest⟩ := Option.bind_eq_some_iff.mp hs
    have hkeep' : ∀ n, t = .operation n → .input (.abort n) ∉ rest :=
      fun n ht hmem => hkeep n ht (List.mem_cons_of_mem m hmem)
    have hnext := h.move hs₁
    rw [along_cons hs₁]
    by_cases hm : m.isStepOf t = true
    · -- A step of its own ends it, or brings it nearer to its end.
      obtain rfl := Move.eq_of_isStepOf hm
      obtain ⟨e', he', ⟨o, rfl, hallows⟩ | ⟨hearly, hlt, hfirst⟩⟩ := h.step he hgoing hs₁
      · refine .inr ⟨o, ?_, hallows⟩
        have hone : endings t s (.step t) = [o] := by
          unfold endings
          rw [if_pos hm, hs₁, Option.bind_some, he']
        rw [hone]
        rfl
      · have hnone : endings t s (.step t) = [] := by
          unfold endings
          rw [if_pos hm, hs₁, Option.bind_some, he']
          cases e' with
          | ended o => exact hearly.elim
          | _ => rfl
        rw [hnone, List.nil_append, List.countP_cons_of_pos hm]
        rcases ih hnext he' hearly.going hkeep' hrest with ⟨hquiet, hcount⟩ | ⟨o, hhead, hallows⟩
        · exact .inl ⟨hquiet, by omega⟩
        · exact .inr ⟨o, hhead, hfirst.allows_iff.mpr (hearly.allows_iff.mp hallows)⟩
    · have hother : m ≠ .step t := by
        rintro rfl
        exact hm (Move.isStepOf_step t)
      have hdrop : ∀ n, t = .operation n → m ≠ .input (.abort n) := by
        rintro n ht rfl
        exact hkeep n ht List.mem_cons_self
      have hnone : endings t s m = [] := if_neg hm
      have hsame := exchangeOf_of_other hs₁ hother hdrop
      rw [hnone, List.nil_append, List.countP_cons_of_neg hm]
      have hrun := ih hnext (hsame.trans he) hgoing hkeep' hrest
      simpa only [h.answersTo_eq, h.failuresOf_eq] using hrun

end Session

end Coap

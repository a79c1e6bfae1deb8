import Coap.Proofs.ExchangeLedger

/-! Responses and exchanges are matched by message ids alone: in every run of a client, whatever
operations and workers do side by side and whatever arrives, an exchange ends with the first answer
to its id since it was registered, and nothing else that arrives changes it. -/
namespace Coap

/-- Whether the request of an exchange has the id under which the exchange is registered. -/
def Exchange.Labelled : Exchange → Prop
  | .registered r w | .sending r w => r.id = w.id
  | .begun _ | .checked _ | .waiting _ _ | .ended _ => True

/-- How a step ends an exchange: a wait ends with what has been fetched, anything else with an
error. -/
theorem Connection.Advance.ended {c : Connection} {cancelled : Bool} {e : Exchange}
    {c' : Connection.Stepped} {o : Outcome} (h : c.Advance cancelled e c')
    (ho : c'.exchange = .ended o) :
    (∃ w deadline r x, e = .waiting w deadline ∧
      c.exchanges.fetch w cancelled (deadline ≤ c.clock) = some (r, x) ∧ o = r.bind Exchange.judge) ∨
    ∃ err, o = .error err ∧ ∀ w deadline, e ≠ .waiting w deadline := by
  cases h with
  | fetched fetch =>
    cases ho
    exact .inl ⟨_, _, _, _, rfl, fetch, rfl⟩
  | checked | registered _ | passed _ | sent _ => cases ho
  | refused | exhausted | shut _ | stopped _ | unsent _ =>
    cases ho
    exact .inr ⟨_, rfl, nofun⟩

namespace Session

/-- The waiters that a move registers. -/
def registers (s : Session) (m : Move) : List Waiter :=
  match s.move m with
  | some s' => s'.connection.exchanges.pending.filter fun w =>
      !s.connection.exchanges.pending.contains w
  | none => []

/-- The waiters that have been registered so far. -/
def registrations (first : Session) (past : List Move) : List Waiter := along registers first past

/-- After the run `past`: responses are correlated by message ids only. -/
structure Correlated (first : Session) (past : List Move) (s : Session) : Prop where
  /-- The ids of outstanding exchanges are pairwise different. -/
  ids : s.connection.exchanges.ids.Nodup
  /-- An id is that of at most one outstanding exchange, so an answer decides at most one. -/
  once : ∀ v ∈ s.connection.exchanges.pending, ∀ w ∈ s.connection.exchanges.pending,
    v.id = w.id → v = w
  /-- Every outstanding exchange is that of one task. -/
  owned : ∀ w ∈ s.connection.exchanges.pending, ∃! t, s.waiterOf t = some w
  /-- A request goes out under the id of its exchange. -/
  labelled : ∀ t e, s.exchangeOf t = some e → e.Labelled
  /-- An exchange ends by a step of its own task. A wait ends with what the first answer to its id
  since the registration means; if there was none, it has been cancelled, its time is over, or the
  connection has failed. Whatever ends earlier has an error of its own. -/
  ends : ∀ m s' t e o, s.move m = some s' → s.exchangeOf t = some e → (∀ o', e ≠ .ended o') →
    s'.exchangeOf t = some (.ended o) → m = .step t ∧
      ((∃ w deadline a, e = .waiting w deadline ∧ (answersTo first w past).head? = some a ∧
        o = Exchange.judge a) ∨
      (∃ w deadline err, e = .waiting w deadline ∧ answersTo first w past = [] ∧ o = .error err ∧
        (err = .cancelled ∧ s.isCancelled t = true ∨
          err = .timedOut ∧ deadline ≤ s.connection.clock ∨ failuresOf first past = [err])) ∨
      ∃ err, o = .error err ∧ ∀ w deadline, e ≠ .waiting w deadline)
  /-- A message that is routed decides the outstanding exchange with its id, if it is an answer and
  there is one, and changes no other exchange and no other result. -/
  routes : ∀ a s', s.routed (.step .receiver) = [a] → s.step .receiver = some s' →
    (∀ t, s'.exchangeOf t = s.exchangeOf t) ∧
    (a.isAnswer = false → s'.connection.exchanges = s.connection.exchanges) ∧
    (a.isAnswer = true → ∀ t w, s.waiterOf t = some w →
      (w ∈ s.connection.exchanges.pending ∧ w.id = a.id →
        s'.connection.exchanges.Decided w (.ok a)) ∧
      (¬ (w ∈ s.connection.exchanges.pending ∧ w.id = a.id) →
        Exchanges.Alike w s.connection.exchanges s'.connection.exchanges))
  /-- A move that is neither a step of a task nor its end changes neither the exchange of the task
  nor, unless it is a step of the receiver, its result. -/
  apart : ∀ m s' t, s.move m = some s' → m ≠ .step t →
    (∀ n, t = .operation n → m ≠ .input (.abort n)) →
    s'.exchangeOf t = s.exchangeOf t ∧ (m ≠ .step .receiver → ∀ w, s.waiterOf t = some w →
      Exchanges.Alike w s.connection.exchanges s'.connection.exchanges)
  /-- Once an exchange has lost its entry, by an answer, a timeout or a cancellation, an answer to
  its id changes nothing, as long as the id has not been registered again. -/
  late : ∀ w ∈ registrations first past, w ∉ s.connection.exchanges.pending →
    (∀ v ∈ registrations first past, v.id = w.id → v.ticket ≤ w.ticket) →
    ∀ a s', s.routed (.step .receiver) = [a] → a.id = w.id → s.step .receiver = some s' →
      s'.connection.exchanges = s.connection.exchanges

variable {first s s' : Session} {past : List Move} {m : Move} {t : Task} {e : Exchange} {o : Outcome}
  {a : Message}

/-! Requests and ids. -/

/-- What holds of every exchange at its beginning, and is kept by its steps, holds throughout. -/
theorem exchanges_move {P : Exchange → Prop} (hbegun : ∀ r, P (.begun r))
    (hstep : ∀ c cancelled e c', P e → Connection.Advance c cancelled e c' → P c'.exchange)
    (h : ∀ t e, s.exchangeOf t = some e → P e) (hs : s.move m = some s') :
    ∀ t e, s'.exchangeOf t = some e → P e := by
  intro t e he
  cases passage_of_move hs t with
  | kept same => exact h t e (same.symm.trans he)
  | advanced _ before advance _ after =>
    rw [after] at he
    cases he
    exact hstep _ _ _ _ (h t _ before) advance
  | turned _ _ after =>
    obtain ⟨r, rfl⟩ := after e he
    exact hbegun r
  | dropped _ _ _ gone =>
    rw [gone] at he
    cases he

theorem labelled_advance (c : Connection) (cancelled : Bool) (e : Exchange)
    (c' : Connection.Stepped) (h : e.Labelled) (hadvance : c.Advance cancelled e c') : c'.exchange.Labelled := by
  cases hadvance with
  | registered _ => exact rfl
  | passed _ => exact h
  | _ => exact trivial

/-! The end of an exchange. -/

/-- What a wait ends with: the first answer to its id, or the failure; without a result only the
task itself or the clock ends it. -/
theorem fetched_of_accounted {received : List Message} {failed : List ClientError}
    {x y : Exchanges} {w : Waiter} {cancelled expired : Bool} {r : Outcome}
    (h : Accounted received failed x w) (hf : x.fetch w cancelled expired = some (r, y)) :
    (∃ a, received.head? = some a ∧ r = .ok a) ∨
    ∃ err, received = [] ∧ r = .error err ∧
      (err = .cancelled ∧ cancelled = true ∨ err = .timedOut ∧ expired = true ∨ failed = [err]) := by
  rcases h with ⟨hu, hnone⟩ | ⟨a, hd, hfirst⟩ | ⟨err, hd, hnone, hfail⟩
  · rw [Exchanges.fetch_of_undecided hu] at hf
    split at hf
    · rename_i hcancelled
      cases hf
      exact .inr ⟨.cancelled, hnone, rfl, .inl ⟨rfl, hcancelled⟩⟩
    · split at hf
      · rename_i hexpired
        cases hf
        exact .inr ⟨.timedOut, hnone, rfl, .inr (.inl ⟨rfl, hexpired⟩)⟩
      · cases hf
  · rw [Exchanges.fetch_of_decided hd] at hf
    cases hf
    exact .inl ⟨a, hfirst, rfl⟩
  · rw [Exchanges.fetch_of_decided hd] at hf
    cases hf
    exact .inr ⟨err, hnone, rfl, .inr (.inr hfail)⟩

theorem ends_of_move (hkept : Kept first past s) (hs : s.move m = some s')
    (he : s.exchangeOf t = some e) (hgoing : ∀ o', e ≠ .ended o')
    (he' : s'.exchangeOf t = some (.ended o)) : m = .step t ∧
      ((∃ w deadline a, e = .waiting w deadline ∧ (answersTo first w past).head? = some a ∧
        o = Exchange.judge a) ∨
      (∃ w deadline err, e = .waiting w deadline ∧ answersTo first w past = [] ∧ o = .error err ∧
        (err = .cancelled ∧ s.isCancelled t = true ∨
          err = .timedOut ∧ deadline ≤ s.connection.clock ∨ failuresOf first past = [err])) ∨
      ∃ err, o = .error err ∧ ∀ w deadline, e ≠ .waiting w deadline) := by
  cases passage_of_move hs t with
  | kept same =>
    rw [same, he] at he'
    cases he'
    exact absurd rfl (hgoing o)
  | turned _ _ after =>
    obtain ⟨r, hr⟩ := after _ he'
    cases hr
  | dropped _ _ _ gone =>
    rw [gone] at he'
    cases he'
  | advanced mover before advance _ after =>
    rw [he] at before
    cases before
    rw [after] at he'
    refine ⟨mover, ?_⟩
    rcases advance.ended (Option.some.inj he') with ⟨w, deadline, r, x, rfl, hfetch, rfl⟩ | hother
    · have haccounted := hkept.ledger.accounted t w (waiterOf_eq he)
      rcases fetched_of_accounted haccounted hfetch with
        ⟨a, hfirst, rfl⟩ | ⟨err, hnone, rfl, hcause⟩
      · exact .inl ⟨w, deadline, a, rfl, hfirst, rfl⟩
      · rw [decide_eq_true_eq] at hcause
        exact .inr (.inl ⟨w, deadline, err, rfl, hnone, rfl, hcause⟩)
    · exact .inr (.inr hother)

/-! Messages that are routed. -/

/-- A message that is routed goes to the table, if it is an answer. -/
theorem exchanges_of_routed (hrouted : s.routed (.step .receiver) = [a])
    (hs : s.step .receiver = some s') : s'.connection.exchanges =
      if a.isAnswer then (s.connection.exchanges.complete a).2 else s.connection.exchanges := by
  unfold routed at hrouted
  dsimp only at hrouted
  split at hrouted
  · rename_i m wire phase going arrival
    cases hrouted
    have hstep : s.step .receiver = some ((s.setWire wire).route a) := by
      change s.stepReceiver = _
      simp [stepReceiver, phase, listen, going, arrival]
    rw [hstep] at hs
    cases hs
    cases ha : a.isAnswer with
    | true =>
      rw [route_answer ha]
      rfl
    | false =>
      rw [route_other ha]
      rfl
  · cases hrouted

theorem routes_of_step (hkept : Kept first past s) (hrouted : s.routed (.step .receiver) = [a])
    (hs : s.step .receiver = some s') :
    (∀ t, s'.exchangeOf t = s.exchangeOf t) ∧
    (a.isAnswer = false → s'.connection.exchanges = s.connection.exchanges) ∧
    (a.isAnswer = true → ∀ t w, s.waiterOf t = some w →
      (w ∈ s.connection.exchanges.pending ∧ w.id = a.id →
        s'.connection.exchanges.Decided w (.ok a)) ∧
      (¬ (w ∈ s.connection.exchanges.pending ∧ w.id = a.id) →
        Exchanges.Alike w s.connection.exchanges s'.connection.exchanges)) := by
  have htable := exchanges_of_routed hrouted hs
  refine ⟨exchangeOf_stepReceiver hs, ?_, ?_⟩
  · intro ha
    rw [htable, ha]
    rfl
  · intro ha t w hw
    obtain ⟨⟨live, hlive, hmem⟩, -⟩ := hkept.seated
    have hseat : w ∈ live := (hmem w).mpr ⟨t, hw⟩
    rw [htable, if_pos ha]
    constructor
    · rintro ⟨hp, hid⟩
      rcases hlive.either w hseat with hu | ⟨r, hd⟩
      · exact Exchanges.decided_resolve hlive hu hid _
      · exact absurd hp hd.1
    · intro hother
      exact Exchanges.alike_resolve hlive hseat hother _

/-! Moves of others. -/

theorem apart_of_move (hkept : Kept first past s) (hs : s.move m = some s') (hm : m ≠ .step t)
    (hdrop : ∀ n, t = .operation n → m ≠ .input (.abort n)) :
    s'.exchangeOf t = s.exchangeOf t ∧ (m ≠ .step .receiver → ∀ w, s.waiterOf t = some w →
      Exchanges.Alike w s.connection.exchanges s'.connection.exchanges) := by
  have hsame := exchangeOf_of_other hs hm hdrop
  refine ⟨hsame, ?_⟩
  intro hother w hw
  obtain ⟨⟨live, hlive, hmem⟩, hsingle⟩ := hkept.seated
  have hseat {t : Task} {w : Waiter} (hw : s.waiterOf t = some w) : w ∈ live :=
    (hmem w).mpr ⟨t, hw⟩
  cases tableMove_of_move hs with
  | kept _ exchanges _ =>
    rw [exchanges]
    exact ⟨Iff.rfl, rfl⟩
  | registered _ _ _ _ register _ _ => exact Exchanges.alike_register hlive (hseat hw) register
  | released task v _ own exchanges gone _ =>
    have hne : w ≠ v := by
      rintro rfl
      have ht : t = task := hsingle t task w hw own
      rw [← ht, waiterOf_of_exchangeOf hsame, hw] at gone
      cases gone
    rw [exchanges]
    exact Exchanges.alike_release hlive (hseat hw) (hseat own) hne
  | answered _ mover _ _ _ _ => exact absurd mover hother
  | failed _ _ _ mover _ _ _ _ => exact absurd mover hother

/-! Answers that come too late. -/

/-- The waiters that have been registered and the entries that are there: an id is registered again
only after its entry is gone. -/
structure Registry (registered : List Waiter) (x : Exchanges) : Prop where
  ticket_lt : ∀ w ∈ registered, w.ticket < x.nextTicket
  eq_of_ticket : ∀ v ∈ registered, ∀ w ∈ registered, v.ticket = w.ticket → v = w
  pending : ∀ v ∈ x.pending, v ∈ registered
  later : ∀ v ∈ x.pending, ∀ w ∈ registered, v.ticket < w.ticket → w.id ≠ v.id

variable {registered : List Waiter}

/-- A move that registers nothing and leaves fewer entries. -/
theorem Registry.of_subset {x y : Exchanges} (h : Registry registered x)
    (hticket : x.nextTicket ≤ y.nextTicket) (hpending : ∀ v ∈ y.pending, v ∈ x.pending) :
    Registry registered y where
  ticket_lt := fun w hw => Nat.lt_of_lt_of_le (h.ticket_lt w hw) hticket
  eq_of_ticket := h.eq_of_ticket
  pending := fun v hv => h.pending v (hpending v hv)
  later := fun v hv => h.later v (hpending v hv)

theorem Registry.register {x y : Exchanges} {w : Waiter} (h : Registry registered x)
    (hr : x.register w.id = .ok (w, y)) : Registry (registered ++ [w]) y := by
  obtain ⟨hid, hpending⟩ := Exchanges.pending_register hr
  obtain ⟨hticket, hnext, -⟩ := Exchanges.register_eq_ok hr
  refine ⟨?_, ?_, ?_, ?_⟩
  · intro v hv
    rcases List.mem_append.mp hv with hv | hv
    · have hlt := h.ticket_lt v hv
      omega
    · rw [List.mem_singleton.mp hv]
      omega
  · intro u hu v hv huv
    rcases List.mem_append.mp hu with hu | hu <;> rcases List.mem_append.mp hv with hv | hv
    · exact h.eq_of_ticket u hu v hv huv
    · have hlt := h.ticket_lt u hu
      rw [List.mem_singleton.mp hv] at huv
      omega
    · have hlt := h.ticket_lt v hv
      rw [List.mem_singleton.mp hu] at huv
      omega
    · rw [List.mem_singleton.mp hu, List.mem_singleton.mp hv]
  · intro v hv
    rw [hpending] at hv
    rcases List.mem_append.mp hv with hv | hv
    · exact List.mem_append_left _ (h.pending v hv)
    · exact List.mem_append_right _ hv
  · intro v hv u hu hlt
    rw [hpending] at hv
    rcases List.mem_append.mp hv with hv | hv <;> rcases List.mem_append.mp hu with hu | hu
    · exact h.later v hv u hu hlt
    · -- The id that has just been registered was free.
      rw [List.mem_singleton.mp hu]
      intro he
      exact hid (List.mem_map.mpr ⟨v, hv, he.symm⟩)
    · have hu := h.ticket_lt u hu
      rw [List.mem_singleton.mp hv] at hlt
      omega
    · rw [List.mem_singleton.mp hv, List.mem_singleton.mp hu] at hlt
      exact absurd hlt (Nat.lt_irrefl _)

theorem pending_resolve (x : Exchanges) (id : UInt16) (r : Outcome) {v : Waiter}
    (hv : v ∈ (x.resolve id r).2.pending) : v ∈ x.pending := by
  unfold Exchanges.resolve at hv
  split at hv
  · exact hv
  · exact List.mem_of_mem_erase hv

theorem registers_eq (hs : s.move m = some s') : s.registers m =
    s'.connection.exchanges.pending.filter fun w => !s.connection.exchanges.pending.contains w := by
  unfold registers
  rw [hs]

/-- A move that adds no entry registers nothing. -/
theorem registers_eq_nil (hs : s.move m = some s')
    (h : ∀ v ∈ s'.connection.exchanges.pending, v ∈ s.connection.exchanges.pending) :
    s.registers m = [] := by
  rw [registers_eq hs]
  apply List.filter_eq_nil_iff.mpr
  intro v hv
  simp [h v hv]

theorem registers_of_register {w : Waiter} (hs : s.move m = some s')
    (hregister : s.connection.exchanges.register w.id = .ok (w, s'.connection.exchanges)) :
    s.registers m = [w] := by
  obtain ⟨hid, hpending⟩ := Exchanges.pending_register hregister
  have hnew : w ∉ s.connection.exchanges.pending :=
    fun hw => hid (List.mem_map.mpr ⟨w, hw, rfl⟩)
  have hold : (s.connection.exchanges.pending.filter fun v =>
      !s.connection.exchanges.pending.contains v) = [] := by
    apply List.filter_eq_nil_iff.mpr
    intro v hv
    simp [hv]
  rw [registers_eq hs, hpending, List.filter_append, hold]
  simp [hnew]

/-- A move registers the waiter of a task that had none, or it adds no entry. -/
theorem TableMove.registers_or_fewer (h : TableMove s s' m) :
    (∃ t w, s.waiterOf t = none ∧ s'.waiterOf t = some w ∧
      s.connection.exchanges.register w.id = .ok (w, s'.connection.exchanges)) ∨
    ∀ v ∈ s'.connection.exchanges.pending, v ∈ s.connection.exchanges.pending := by
  cases h with
  | kept _ exchanges _ => exact .inr fun v hv => by rwa [exchanges] at hv
  | registered t w _ free register own _ => exact .inl ⟨t, w, free, own, register⟩
  | released _ w _ _ exchanges _ _ =>
    refine .inr fun v hv => ?_
    rw [exchanges] at hv
    exact ((Exchanges.pending_release _ w v).mp hv).1
  | answered a _ _ _ exchanges _ =>
    refine .inr fun v hv => ?_
    rw [exchanges] at hv
    exact pending_resolve _ _ _ hv
  | failed e id ids _ _ _ exchanges _ =>
    refine .inr fun v hv => ?_
    rw [exchanges] at hv
    exact pending_resolve _ _ _ hv

theorem Registry.move (h : Registry registered s.connection.exchanges) (hs : s.move m = some s') :
    Registry (registered ++ s.registers m) s'.connection.exchanges := by
  have htable := tableMove_of_move hs
  rcases htable.registers_or_fewer with ⟨-, w, -, -, hregister⟩ | hfewer
  · rw [registers_of_register hs hregister]
    exact h.register hregister
  · rw [registers_eq_nil hs hfewer, List.append_nil]
    exact h.of_subset (nextTicket_le htable) hfewer

/-- An id whose latest registration has lost its entry is not outstanding. -/
theorem Registry.not_mem_ids {x : Exchanges} {w : Waiter} (h : Registry registered x)
    (hw : w ∈ registered) (hgone : w ∉ x.pending)
    (hlatest : ∀ v ∈ registered, v.id = w.id → v.ticket ≤ w.ticket) : w.id ∉ x.ids := by
  intro hid
  obtain ⟨v, hv, hvid⟩ := List.mem_map.mp hid
  have hregistered := h.pending v hv
  rcases Nat.lt_or_eq_of_le (hlatest v hregistered hvid) with hlt | heq
  · exact h.later v hv w hw hlt hvid.symm
  · rw [h.eq_of_ticket v hregistered w hw heq] at hv
    exact hgone hv

/-- In every run of a client responses are correlated by message ids only. -/
theorem answers_are_matched_by_id {options : ConnectOptions} {pipe : Pipe} {messageIds : MessageIds}
    {tokens : Tokens} {timer : Timer} {past : List Move} {s : Session}
    (hrun : (start options pipe messageIds tokens timer).run past = some s) :
    Correlated (start options pipe messageIds tokens timer) past s := by
  let first := start options pipe messageIds tokens timer
  have hkept : Kept first past s := kept_run hrun
  have hlabelled : ∀ t e, s.exchangeOf t = some e → e.Labelled := by
    refine run_induction (P := fun _ s => ∀ t e, s.exchangeOf t = some e → e.Labelled) ?_ ?_ hrun
    · intro t e he
      cases t <;> cases he
    · intro _ s _ s' _ h hs
      exact exchanges_move (fun _ => trivial) labelled_advance h hs
  have hregistry : Registry (registrations first past) s.connection.exchanges := by
    have hempty : Registry [] first.connection.exchanges := ⟨nofun, nofun, nofun, nofun⟩
    refine run_induction (P := fun past s => Registry (registrations first past)
      s.connection.exchanges) hempty ?_ hrun
    intro past s m s' hpast h hs
    have halong := along_concat registers hpast m
    unfold registrations
    rw [halong]
    exact h.move hs
  obtain ⟨⟨live, hlive, hmem⟩, hsingle⟩ := hkept.seated
  refine ⟨hlive.ids, fun v hv w hw => hlive.eq_of_id hv hw, ?_, hlabelled, ?_, ?_, ?_, ?_⟩
  · intro w hw
    obtain ⟨t, ht⟩ := (hmem w).mp (hlive.pending_live w hw)
    exact ⟨t, ht, fun t' ht' => hsingle t' t w ht' ht⟩
  · intro m s' t e o hs he hgoing he'
    exact ends_of_move hkept hs he hgoing he'
  · intro a s' hrouted hs
    exact routes_of_step hkept hrouted hs
  · intro m s' t hs hm hdrop
    exact apart_of_move hkept hs hm hdrop
  · intro w hw hgone hlatest a s' hrouted hid hs
    have hfree := hregistry.not_mem_ids hw hgone hlatest
    rw [exchanges_of_routed hrouted hs]
    split
    · rw [Exchanges.complete, hid, Exchanges.resolve_of_not_mem hfree]
    · rfl

/-- The client of the run below. -/
def pairClient : Session :=
  let options : ConnectOptions :=
    { host := "", port := 0, timeout := 1, blockSize := .s16, blockTransfer := false
      credentials := none }
  start options {} { next := 0 } { base := 0 }

/-- Two requests side by side. A message without an exchange arrives first; then the second request
is answered twice, and the first one after it. -/
def pairMoves : List Move :=
  let request : Request := { message := { type := .confirmable, code := .request .get } }
  let call : Move := .input (.call (.request request) false)
  let both : List Move := [.step (.operation 0), .step (.operation 1)]
  let answer (id : UInt16) (payload : ByteArray) : Message :=
    { type := .acknowledgement, code := .response .content, id, payload }
  [call, call] ++ (List.replicate 5 both).flatten ++
    [.input (.message { answer 0 ⟨#[9]⟩ with type := .nonConfirmable }), .step .receiver,
      .input (.message (answer 1 ⟨#[2]⟩)), .step .receiver, .input (.message (answer 1 ⟨#[8]⟩)),
      .step .receiver, .input (.message (answer 0 ⟨#[1]⟩)), .step .receiver] ++
    (List.replicate 3 both).flatten

/-- The payload of the response that an operation has come to. -/
def payloadOf : Completion → Option ByteArray
  | .response r => some r.message.payload
  | _ => none

/-- Each request gets the first answer to its own id. -/
theorem pair_is_matched : ∃ s, pairClient.run pairMoves = some s ∧ Correlated pairClient pairMoves s ∧
    (s.completionsOf 0).map payloadOf = [some ⟨#[1]⟩] ∧
    (s.completionsOf 1).map payloadOf = [some ⟨#[2]⟩] := by
  have hends : (pairClient.run pairMoves).map (fun s =>
      ((s.completionsOf 0).map payloadOf, (s.completionsOf 1).map payloadOf)) =
      some ([some ⟨#[1]⟩], [some ⟨#[2]⟩]) := rfl
  obtain ⟨s, hs, hpayloads⟩ := Option.map_eq_some_iff.mp hends
  have hmatched := answers_are_matched_by_id hs
  exact ⟨s, hs, hmatched, congrArg Prod.fst hpayloads, congrArg Prod.snd hpayloads⟩

end Session

end Coap

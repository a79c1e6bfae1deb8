import Coap.Proofs.DeliveryOutcome
import Coap.Proofs.ExchangeOwners
import Coap.Proofs.FeedReports
import Coap.Proofs.HandlerReactions
import Coap.Proofs.SubscriptionRoster

/-! The order of notifications, from the table of subscriptions through the queue of one of them to
its handler: what the table accepts is taken in that order, and each notification that is taken calls
the handler once, or not at all if its delivery fails. -/
namespace Coap

/-- The call of a handler that an event records, with what the handler made of it. -/
def Event.callOf? (n : Nat) : Event → Option (Notification × Reaction)
  | .notified k notification reaction => if k = n then some (notification, reaction) else none
  | _ => none

namespace Session

/-- The calls of the handler of an observe operation so far. -/
def callsOf (s : Session) (n : Nat) : List (Notification × Reaction) :=
  s.log.toList.filterMap (Event.callOf? n)

/-- The notification that a move puts into the queue of the subscription with a serial number. -/
def accepts (k : Nat) (s : Session) (m : Move) : List Message :=
  (s.notices m).filter fun a =>
    (s.subscriptions.lookup? k).any fun e => e.token == a.token && e.takesIn a

/-- The notifications that the subscription with a serial number has accepted along a run. -/
def acceptedBy (first : Session) (k : Nat) (past : List Move) : List Message :=
  along (accepts k) first past

/-- The notification that a worker takes with a move. -/
def takes (k : Nat) (s : Session) (m : Move) : List Message :=
  if m.isStepOf (.worker k) && (s.exchangeOf (.worker k)).isNone && !s.isStopped k then
    ((s.subscriptions.take k).map Prod.fst).toList
  else []

/-- The notifications that a worker has taken along a run. -/
def takenBy (first : Session) (k : Nat) (past : List Move) : List Message := along (takes k) first past

/-- The answer that a worker hands to its delivery with a move. -/
def uses (k : Nat) (s : Session) (m : Move) : List Outcome :=
  if m.isStepOf (.worker k) then
    match s.exchangeOf (.worker k) with
    | some (.ended answer) => [answer]
    | _ => []
  else []

/-- The answers that a worker has handed to its deliveries along a run. -/
def usedBy (first : Session) (k : Nat) (past : List Move) : List Outcome := along (uses k) first past

/-- The delivery that a worker is at. -/
def deliveryOf (s : Session) (k : Nat) : Option Delivery :=
  ((s.worker? k).bind Worker.current).map Prod.fst

/-- What holds of a subscription's worker `w` after the run `past`, whatever has become of both since
they were made. -/
structure Served (first : Session) (past : List Move) (w : Worker) (s : Session) : Prop where
  /-- The notifications that have been taken are delivered one after the other, each with the answers to
  its own requests; the handler has been called exactly as each of them demands. -/
  rounds : ∃ rounds : List Round, rounds.map Round.message = takenBy first w.serial past ∧
    rounds.flatMap Round.answers = usedBy first w.serial past ∧
    s.callsOf w.owner = (rounds.filterMap Round.call).map (fun n => (n, w.handler n)) ∧
    (∀ r ∈ rounds, r.Sound s.transfers.blockTransfer w.template) ∧
    (∀ r ∈ rounds.dropLast, r.Over s.transfers.blockTransfer w.template) ∧
    (s.exchangeOf (.worker w.serial) = none → ∀ r ∈ rounds, r.Over s.transfers.blockTransfer w.template)
  /-- Notifications are taken as they have been accepted. -/
  order : takenBy first w.serial past <+: acceptedBy first w.serial past
  /-- What has been accepted and not taken yet is in the queue. -/
  queue : ∀ e, s.subscriptions.lookup? w.serial = some e →
    takenBy first w.serial past ++ e.queue = acceptedBy first w.serial past
  /-- A worker that need not stop takes the next notification as soon as it is at rest. -/
  goes : s.isStopped w.serial = false → s.exchangeOf (.worker w.serial) = none →
    ∀ a, takenBy first w.serial past ++ [a] <+: acceptedBy first w.serial past →
      (∃ s', s.step (.worker w.serial) = some s') ∧
      takenBy first w.serial (past ++ [.step (.worker w.serial)]) = takenBy first w.serial past ++ [a]
  /-- After the stop nothing is taken or requested any more, and only a delivery that is under way may
  call the handler. -/
  ends : s.isStopped w.serial = true → ∀ later s', s.run later = some s' →
    takenBy first w.serial (past ++ later) = takenBy first w.serial past ∧
    s'.sentBy (.worker w.serial) = s.sentBy (.worker w.serial) ∧
    ∃ more, s'.callsOf w.owner = s.callsOf w.owner ++ more ∧ more.length ≤ 1 ∧
      (s.exchangeOf (.worker w.serial) = none → more = [])

variable {first s s' : Session} {m : Move} {w v : Worker} {k : Nat} {past : List Move}
  {made : List Worker}

/-! What a move takes and uses. -/

theorem takes_of_other (h : m ≠ .step (.worker k)) : s.takes k m = [] := by
  have hm : ¬ m.isStepOf (.worker k) = true := fun hstep => h (Move.eq_of_isStepOf hstep)
  unfold takes
  simp [hm]

theorem takes_of_stopped (h : s.isStopped k = true) : s.takes k m = [] := by
  unfold takes
  rw [h]
  simp

theorem takes_of_busy {e : Exchange} (h : s.exchangeOf (.worker k) = some e) : s.takes k m = [] := by
  unfold takes
  rw [h]
  simp

theorem takes_of_rest {a : Message} {subscriptions : Subscriptions}
    (hrest : s.exchangeOf (.worker k) = none) (hgoing : s.isStopped k = false)
    (htake : s.subscriptions.take k = some (a, subscriptions)) :
    s.takes k (.step (.worker k)) = [a] := by
  unfold takes
  rw [hrest, hgoing, htake, Move.isStepOf_step]
  rfl

/-- What is taken is the head of the queue. -/
theorem takes_cases (k : Nat) (s : Session) (m : Move) : s.takes k m = [] ∨
    ∃ e, s.subscriptions.lookup? k = some e ∧ s.takes k m <+: e.queue := by
  unfold takes
  split
  · cases htake : s.subscriptions.take k with
    | none => exact .inl rfl
    | some taken =>
      obtain ⟨a, subscriptions⟩ := taken
      obtain ⟨e, rest, he, hqueue, -⟩ := Subscriptions.take_cases htake
      refine .inr ⟨e, he, ?_⟩
      rw [hqueue]
      exact ⟨rest, rfl⟩
  · exact .inl rfl

/-- What a worker hands to its deliveries is what it hears. -/
theorem usedBy_eq_heardBy (first : Session) (k : Nat) (past : List Move) :
    usedBy first k past = heardBy first (.worker k) past := rfl

theorem usedBy_concat (hpast : first.run past = some s) (k : Nat) (m : Move) :
    usedBy first k (past ++ [m]) = usedBy first k past ++ s.hears (.worker k) m :=
  along_concat (hears (.worker k)) hpast m

theorem hears_of_rest (h : s.exchangeOf (.worker k) = none) : s.hears (.worker k) m = [] :=
  hears_of_going (h ▸ fun _ => nofun)

theorem hears_of_busy {e : Exchange} (h : s.exchangeOf (.worker k) = some e)
    (hgoing : ∀ answer, e ≠ .ended answer) : s.hears (.worker k) m = [] :=
  hears_of_going (h ▸ fun answer he => hgoing answer (Option.some.inj he))

theorem exchangeOf_of_rest (hw : s.worker? w.serial = some w) (h : w.current = none) :
    s.exchangeOf (.worker w.serial) = none := by
  rw [exchangeOf_worker hw]
  unfold Worker.exchange?
  rw [h]
  rfl

theorem exchangeOf_of_busy {delivery : Delivery} {e : Exchange} (hw : s.worker? w.serial = some w)
    (h : w.current = some (delivery, e)) : s.exchangeOf (.worker w.serial) = some e := by
  rw [exchangeOf_worker hw]
  unfold Worker.exchange?
  rw [h]
  rfl

/-! What a move does to the queue of one subscription. -/

/-- The entry of a serial number in a table that has been reshaped. -/
theorem Reshaped.lookup? {t : Subscriptions} (h : Reshaped s m t) (hs : s.subscriptions.Distinct)
    {e : Subscription} (he : t.lookup? k = some e) :
    ∃ p, s.subscriptions.lookup? k = some p ∧ e.queue = p.queue ++ s.accepts k m := by
  have hnone (quiet : s.notices m = []) : s.accepts k m = [] := by
    unfold accepts
    rw [quiet]
    rfl
  cases h with
  | same quiet => exact ⟨e, he, by rw [hnone quiet, List.append_nil]⟩
  | seeded quiet token sequence =>
    unfold Subscriptions.seed at he
    rw [Subscriptions.lookup?_modify (Subscriptions.keepsKeys_seed sequence)] at he
    obtain ⟨p, hp, rfl⟩ := Option.map_eq_some_iff.mp he
    refine ⟨p, hp, ?_⟩
    rw [hnone quiet, List.append_nil]
    split
    · exact Subscription.queue_seed p sequence
    · rfl
  | removed quiet token =>
    have hmem := (List.mem_filter.mp (Subscriptions.mem_of_lookup? he)).1
    have hserial := Subscriptions.serial_of_lookup? he
    refine ⟨e, ?_, by rw [hnone quiet, List.append_nil]⟩
    rw [← hserial]
    exact hs.lookup?_eq hmem
  | cleared quiet => cases he
  | handled a notice =>
    unfold Subscriptions.tryHandle at he
    rw [Subscriptions.lookup?_modify (Subscriptions.keepsKeys_accept a)] at he
    obtain ⟨p, hp, rfl⟩ := Option.map_eq_some_iff.mp he
    refine ⟨p, hp, ?_⟩
    unfold accepts
    rw [notice, hp]
    by_cases htoken : (p.token == a.token) = true
    · rw [if_pos htoken, Subscription.queue_accept]
      cases htakes : p.takesIn a <;> simp [htoken, htakes]
    · rw [if_neg htoken]
      simp [htoken]

/-- What another move does to the queue: it appends what is accepted. -/
theorem lookup?_of_other (hrostered : s.Rostered) (hk : k < s.nextSerial) (hs : s.move m = some s')
    (hm : m ≠ .step (.worker k)) {e : Subscription} (he : s'.subscriptions.lookup? k = some e) :
    ∃ p, s.subscriptions.lookup? k = some p ∧ e.queue = p.queue ++ s.accepts k m := by
  cases upkeep_of_move hs with
  | aside _ table _ => exact table.lookup? hrostered.distinct he
  | made w token mover _ _ serial _ registered _ _ =>
    have hnone : s.accepts k m = [] := by
      rw [mover]
      rfl
    rw [hnone]
    obtain ⟨-, hsubscriptions⟩ := Subscriptions.register_eq_ok registered
    refine ⟨e, ?_, (List.append_nil _).symm⟩
    unfold Subscriptions.lookup? at he ⊢
    rw [hsubscriptions, List.find?_append] at he
    have hother : ([{ token, serial := s.nextSerial }] : List Subscription).find?
        (fun e => e.serial == k) = none := by
      have hne : s.nextSerial ≠ k := Nat.ne_of_gt hk
      simp [hne]
    rwa [hother, Option.or_none] at he
  | worked w mover there shift =>
    have hnone : s.accepts k m = [] := by
      rw [mover]
      rfl
    have hne : w.serial ≠ k := fun heq => hm (by rw [mover, heq])
    rw [hnone]
    have hsame (h : s'.subscriptions = s.subscriptions) :
        ∃ p, s.subscriptions.lookup? k = some p ∧ e.queue = p.queue ++ [] := by
      rw [h] at he
      exact ⟨e, he, (List.append_nil _).symm⟩
    cases shift with
    | dismissed _ _ next => exact hsame (by rw [next]; rfl)
    | resumed delivery answer _ next => exact hsame (by rw [next, subscriptions_deliver])
    | exchanged delivery exchange c _ _ _ next =>
      refine hsame ?_
      rw [next]
      exact (beside_absorb s (.worker w.serial) c).subscriptions
    | started a subscriptions _ _ take next =>
      obtain ⟨rest, htake⟩ := Subscriptions.take_eq_some take
      rw [next, subscriptions_deliver, htake, Subscriptions.lookup?_map
        ((Subscriptions.keepsKeys_queue rest).ite fun e => e.serial == w.serial)] at he
      obtain ⟨p, hp, rfl⟩ := Option.map_eq_some_iff.mp he
      have hp' : s.subscriptions.lookup? k = some p := hp
      refine ⟨p, hp', ?_⟩
      rw [List.append_nil, if_neg]
      rw [Subscriptions.serial_of_lookup? hp', beq_iff_eq]
      exact fun heq => hne heq.symm

/-- The worker itself takes the head of the queue, or nothing. -/
theorem Shift.lookup? (h : Shift s s' w) (hw : s.worker? w.serial = some w) {e : Subscription}
    (he : s'.subscriptions.lookup? w.serial = some e) :
    ∃ p, s.subscriptions.lookup? w.serial = some p ∧
      p.queue = s.takes w.serial (.step (.worker w.serial)) ++ e.queue := by
  have hsame (h : s'.subscriptions = s.subscriptions)
      (htakes : s.takes w.serial (.step (.worker w.serial)) = []) :
      ∃ p, s.subscriptions.lookup? w.serial = some p ∧
        p.queue = s.takes w.serial (.step (.worker w.serial)) ++ e.queue := by
    rw [h] at he
    rw [htakes]
    exact ⟨e, he, rfl⟩
  cases h with
  | dismissed rest stopped next => exact hsame (by rw [next]; rfl) (takes_of_stopped stopped)
  | resumed delivery answer busy next =>
    refine hsame ?_ (takes_of_busy (exchangeOf_of_busy hw busy))
    rw [next, subscriptions_deliver]
  | exchanged delivery exchange c busy _ _ next =>
    refine hsame ?_ (takes_of_busy (exchangeOf_of_busy hw busy))
    rw [next]
    exact (beside_absorb s (.worker w.serial) c).subscriptions
  | started a subscriptions rest going take next =>
    obtain ⟨p, tail, hp, hqueue, htake⟩ := Subscriptions.take_cases take
    refine ⟨p, hp, ?_⟩
    rw [next, subscriptions_deliver, htake, Subscriptions.lookup?_map
      ((Subscriptions.keepsKeys_queue tail).ite fun e => e.serial == w.serial)] at he
    obtain ⟨q, hq, rfl⟩ := Option.map_eq_some_iff.mp he
    have hentry : s.subscriptions.lookup? w.serial = some q := hq
    have hserial : (q.serial == w.serial) = true :=
      beq_iff_eq.mpr (Subscriptions.serial_of_lookup? hentry)
    rw [takes_of_rest (exchangeOf_of_rest hw rest) going take, hqueue, if_pos hserial]
    rfl

/-! The deliveries of one worker. -/

/-- What has become of a worker that was made as `w`: its calls, and what it has taken, are accounted
for by its deliveries. -/
structure Account (first : Session) (past : List Move) (w : Worker) (s : Session) : Prop where
  rounds : ∃ made rounds, s.callsOf w.owner = made.map (fun n => (n, w.handler n)) ∧
    Accounts s.transfers.blockTransfer w.template (takenBy first w.serial past)
      (usedBy first w.serial past) (publishedBy first (.worker w.serial) past) made
      (s.deliveryOf w.serial) rounds
  order : takenBy first w.serial past <+: acceptedBy first w.serial past
  queue : ∀ e, s.subscriptions.lookup? w.serial = some e →
    takenBy first w.serial past ++ e.queue = acceptedBy first w.serial past

/-- The handler of an operation is called by the worker that the operation has made. -/
theorem callsOf_of_other {n : Nat} (hroll : Roll made s) (hs : s.move m = some s')
    (hm : ∀ v ∈ made, v.owner = n → m ≠ .step (.worker v.serial)) : s'.callsOf n = s.callsOf n := by
  refine filterMap_log_eq hs ?_
  intro e hby
  cases e with
  | notified j notification reaction =>
    obtain ⟨v, hmover, hv, rfl⟩ := hby
    refine if_neg ?_
    intro hn
    obtain ⟨u, hu, hsame⟩ := hroll.present v.serial v hv
    have howner : u.owner = v.owner := (congrArg Worker.owner hsame).symm
    have hserial : u.serial = v.serial := (congrArg Worker.serial hsame).symm
    exact hm u hu (howner.trans hn) (hserial ▸ hmover)
  | _ => rfl

theorem callsOf_of_log (h : s'.log = s.log) (n : Nat) : s'.callsOf n = s.callsOf n := by
  unfold callsOf
  rw [h]

theorem callsOf_push {e : Event} (h : s'.log = s.log.push e) (n : Nat) :
    s'.callsOf n = s.callsOf n ++ (e.callOf? n).toList := by
  unfold callsOf
  rw [h, Array.toList_push, List.filterMap_append]
  cases hcall : e.callOf? n <;> simp [hcall]

theorem callsOf_dismiss (s : Session) (w : Worker) (n : Nat) :
    (s.dismiss w).callsOf n = s.callsOf n := by
  have hlog : (s.dismiss w).log = s.log.push (.released w.owner) := rfl
  rw [callsOf_push hlog n]
  exact List.append_nil _

theorem callsOf_absorb (s : Session) (t : Task) (c : Connection.Stepped) (n : Nat) :
    (s.absorb t c).callsOf n = s.callsOf n := by
  have hlog := log_absorb s t c
  cases hsent : c.sent with
  | none =>
    rw [hsent] at hlog
    exact callsOf_of_log hlog n
  | some a =>
    rw [hsent] at hlog
    rw [callsOf_push hlog n]
    exact List.append_nil _

theorem callsOf_deliver (s : Session) (w : Worker) (next : Stride Delivery (Option Notification)) :
    (s.deliver w next).callsOf w.owner =
      s.callsOf w.owner ++ next.called.toList.map fun n => (n, w.handler n) := by
  have hlog := log_deliver s w next
  unfold Stride.called
  cases hturn : next.turn with
  | ask request delivery =>
    rw [hturn] at hlog
    rw [callsOf_of_log hlog]
    exact (List.append_nil _).symm
  | finish result =>
    rw [hturn] at hlog
    cases result with
    | none =>
      rw [callsOf_of_log hlog]
      exact (List.append_nil _).symm
    | some notification =>
      rw [callsOf_push hlog]
      simp [Event.callOf?]

theorem deliveryOf_of_worker? (h : s'.worker? k = s.worker? k) : s'.deliveryOf k = s.deliveryOf k := by
  unfold deliveryOf
  rw [h]

theorem deliveryOf_eq (h : s.worker? k = some w) : s.deliveryOf k = w.current.map Prod.fst := by
  unfold deliveryOf
  rw [h, Option.bind_some]

theorem worker?_deliver {next : Stride Delivery (Option Notification)}
    (hw : s.worker? w.serial = some w) :
    (s.deliver w next).worker? w.serial = some { w with current := next.pending } := by
  rw [worker?_of_workers (workers_deliver s w next)]
  exact @worker?_putWorker s { w with current := next.pending } w hw

theorem deliveryOf_deliver {next : Stride Delivery (Option Notification)}
    (hw : s.worker? w.serial = some w) : (s.deliver w next).deliveryOf w.serial = next.delivery? := by
  rw [deliveryOf_eq (worker?_deliver hw)]
  unfold Stride.pending Stride.delivery?
  cases next.turn <;> rfl

/-- A step of the worker itself brings its deliveries further. -/
theorem Shift.accounts {taken : List Message} {used : List Outcome} {told : List Progress}
    {calls : List Notification} {rounds : List Round} (h : Shift s s' w)
    (hw : s.worker? w.serial = some w)
    (hcalls : s.callsOf w.owner = calls.map fun n => (n, w.handler n))
    (haccounts : Accounts s.transfers.blockTransfer w.template taken used told calls
      (s.deliveryOf w.serial) rounds) :
    ∃ more calls' rounds', s'.reports = s.reports ++ more ∧
      s'.callsOf w.owner = calls'.map (fun n => (n, w.handler n)) ∧
      Accounts s.transfers.blockTransfer w.template
        (taken ++ s.takes w.serial (.step (.worker w.serial)))
        (used ++ s.hears (.worker w.serial) (.step (.worker w.serial))) (told ++ more) calls'
        (s'.deliveryOf w.serial) rounds' := by
  rw [deliveryOf_eq hw] at haccounts
  have hdelivered (next : Stride Delivery (Option Notification)) :
      s.callsOf w.owner ++ next.called.toList.map (fun n => (n, w.handler n)) =
        (calls ++ next.called.toList).map fun n => (n, w.handler n) := by
    rw [hcalls, List.map_append]
  cases h with
  | dismissed rest stopped next =>
    have hgone : s'.worker? w.serial = none := by
      rw [next]
      exact find?_filter_self Worker.serial s.workers
    have hdone : s'.deliveryOf w.serial = none := by
      unfold deliveryOf
      rw [hgone]
      rfl
    have hsame : s'.callsOf w.owner = s.callsOf w.owner := by
      rw [next]
      exact callsOf_dismiss s w w.owner
    have hrest := exchangeOf_of_rest hw rest
    rw [rest] at haccounts
    rw [takes_of_stopped stopped, hears_of_rest hrest, List.append_nil, List.append_nil, hdone]
    refine ⟨[], calls, rounds, ?_, hsame.trans hcalls, ?_⟩
    · rw [next]
      exact (List.append_nil _).symm
    · rw [List.append_nil]
      exact haccounts
  | started a subscriptions rest going take next =>
    have hrest := exchangeOf_of_rest hw rest
    have hdelivery : s'.deliveryOf w.serial =
        (Delivery.start s.transfers.blockTransfer w.template a).delivery? := by
      rw [next]
      exact @deliveryOf_deliver { s with subscriptions } w _ hw
    rw [rest] at haccounts
    rw [takes_of_rest hrest going take, hears_of_rest hrest, List.append_nil, hdelivery]
    refine ⟨_, _, _, ?_, ?_, haccounts.start a⟩
    · rw [next]
      exact reports_deliver { s with subscriptions } w _
    · rw [next, callsOf_deliver]
      exact hdelivered _
  | resumed delivery answer busy next =>
    have hended := exchangeOf_of_busy hw busy
    rw [busy] at haccounts
    obtain ⟨rounds', hresume⟩ := haccounts.resume answer
    have hdelivery : s'.deliveryOf w.serial = (delivery.resume answer).delivery? := by
      rw [next]
      exact deliveryOf_deliver hw
    rw [takes_of_busy hended, hears_of_ended hended, List.append_nil, hdelivery]
    refine ⟨_, _, rounds', ?_, ?_, hresume⟩
    · rw [next]
      exact reports_deliver s w _
    · rw [next, callsOf_deliver]
      exact hdelivered _
  | exchanged delivery e c busy going _ next =>
    have hbusy := exchangeOf_of_busy hw busy
    have hworkers := (beside_absorb s (.worker w.serial) c).workers
    have hthere : (s.absorb (.worker w.serial) c).worker? w.serial = some w :=
      (worker?_of_workers hworkers w.serial).trans hw
    have hput : s'.worker? w.serial = some { w with current := some (delivery, c.exchange) } := by
      rw [next]
      exact @worker?_putWorker _ { w with current := some (delivery, c.exchange) } w hthere
    have hsame : s'.callsOf w.owner = s.callsOf w.owner := by
      rw [next]
      exact callsOf_absorb s (.worker w.serial) c w.owner
    rw [busy] at haccounts
    rw [takes_of_busy hbusy, hears_of_busy hbusy going, List.append_nil, List.append_nil,
      deliveryOf_eq hput]
    refine ⟨[], calls, rounds, ?_, hsame.trans hcalls, ?_⟩
    · rw [next, List.append_nil]
      exact reports_absorb s (.worker w.serial) c
    · rw [List.append_nil]
      exact haccounts

/-! One move, and all of them. -/

/-- What is known of a worker that is there, by what it was made as. -/
theorem Roll.same (h : Roll made s) (hw : w ∈ made) (hv : s.worker? w.serial = some v) :
    v = { w with current := v.current } := by
  obtain ⟨u, hu, hsame⟩ := h.present w.serial v hv
  have hserial : u.serial = w.serial :=
    (congrArg Worker.serial hsame).symm.trans (worker?_serial hv)
  rw [h.single w hw u hu (.inl hserial.symm)]
  exact hsame

/-- Another move leaves the worker as it is. -/
theorem worker?_of_other (hk : k < s.nextSerial) (hs : s.move m = some s')
    (hm : m ≠ .step (.worker k)) : s'.worker? k = s.worker? k := by
  cases upkeep_of_move hs with
  | aside _ _ workers => exact worker?_of_workers workers k
  | made w token _ _ _ serial _ _ workers _ =>
    refine worker?_of_made_ne workers ?_
    omega
  | worked w mover _ shift => exact shift.worker?_ne fun heq => hm (by rw [mover, heq])

theorem Account.move (h : Account first past w s) (hpast : first.run past = some s)
    (hrostered : s.Rostered) (hroll : Roll made s) (hw : w ∈ made) (hs : s.move m = some s') :
    Account first (past ++ [m]) w s' := by
  have hk := (hroll.below w hw).1
  have htransfers : s'.transfers = s.transfers := (kept_move hs).1
  have htaken : takenBy first w.serial (past ++ [m]) =
      takenBy first w.serial past ++ s.takes w.serial m :=
    along_concat (takes w.serial) hpast m
  have hused := usedBy_concat hpast w.serial m
  have htold := publishedBy_concat hpast (.worker w.serial) m
  have haccepted : acceptedBy first w.serial (past ++ [m]) =
      acceptedBy first w.serial past ++ s.accepts w.serial m :=
    along_concat (accepts w.serial) hpast m
  obtain ⟨⟨calls, rounds, hcalls, haccounts⟩, horder, hqueue⟩ := h
  by_cases hm : m = .step (.worker w.serial)
  · subst hm
    cases upkeep_of_move hs with
    | made _ _ mover => cases mover
    | aside mover => cases mover
    | worked v mover there shift =>
      obtain heq : w.serial = v.serial := Task.worker.inj (Move.step.inj mover)
      have hv := hroll.same hw (heq ▸ there)
      have howner : w.owner = v.owner := (congrArg Worker.owner hv).symm
      have htemplate : w.template = v.template := (congrArg Worker.template hv).symm
      have hhandler : w.handler = v.handler := (congrArg Worker.handler hv).symm
      rw [howner, hhandler] at hcalls
      rw [heq] at haccounts horder hqueue
      rw [htemplate] at haccounts
      have hnone : s.accepts v.serial (.step (.worker v.serial)) = [] := rfl
      rw [heq] at htaken hused htold haccepted
      rw [hnone, List.append_nil] at haccepted
      obtain ⟨more, calls', rounds', hmore, hcalls', haccounts'⟩ :=
        shift.accounts there hcalls haccounts
      have hstep : s.step (.worker v.serial) = some s' := heq ▸ hs
      rw [publishes_of_step hstep hmore] at htold
      constructor
      · rw [howner, hhandler, htransfers, htemplate, heq, htaken, hused, htold]
        exact ⟨calls', rounds', hcalls', haccounts'⟩
      · rw [heq, htaken, haccepted]
        rcases takes_cases v.serial s (.step (.worker v.serial)) with hnone | ⟨p, hp, hprefix⟩
        · rw [hnone, List.append_nil]
          exact horder
        · rw [← hqueue p hp]
          exact (List.prefix_append_right_inj _).mpr hprefix
      · intro e he
        rw [heq] at he
        obtain ⟨p, hp, htail⟩ := shift.lookup? there he
        rw [heq, htaken, haccepted, List.append_assoc, ← htail]
        exact hqueue p hp
  · rw [takes_of_other hm, List.append_nil] at htaken
    rw [hears_of_other hm, List.append_nil] at hused
    rw [publishes_of_other hm, List.append_nil] at htold
    constructor
    · rw [callsOf_of_other hroll hs ?_, htransfers, htaken, hused, htold,
        deliveryOf_of_worker? (worker?_of_other hk hs hm)]
      · exact ⟨calls, rounds, hcalls, haccounts⟩
      · intro v hv howner heq
        rw [hroll.single v hv w hw (.inr howner)] at heq
        exact hm heq
    · rw [htaken, haccepted]
      exact horder.trans (List.prefix_append _ _)
    · intro e he
      obtain ⟨p, hp, htail⟩ := lookup?_of_other hrostered hk hs hm he
      rw [htaken, haccepted, htail, ← List.append_assoc, hqueue p hp]

/-- A worker that a move makes is new, and so is its subscription. -/
theorem made_of_enlists (hrostered : s.Rostered) (hs : s.move m = some s') (hw : w ∈ s.enlists m) :
    w.serial = s.nextSerial ∧ w.current = none ∧ s'.worker? w.serial = some w ∧
      m = .step (.operation w.owner) ∧
      ∀ e, s'.subscriptions.lookup? w.serial = some e → e.queue = [] := by
  rw [enlists_eq hs] at hw
  have hthere : s'.worker? s.nextSerial = some w := Option.mem_toList.mp hw
  have hserial : w.serial = s.nextSerial := worker?_serial hthere
  have hfree : s.worker? s.nextSerial = none :=
    worker?_of_workers_lt hrostered.workers_lt (Nat.le_refl _)
  cases upkeep_of_move hs with
  | aside _ _ workers =>
    rw [worker?_of_workers workers, hfree] at hthere
    cases hthere
  | worked v _ there shift =>
    have hne : v.serial ≠ s.nextSerial :=
      Nat.ne_of_lt (hrostered.workers_lt v (List.mem_of_find?_eq_some there))
    rw [shift.worker?_ne hne, hfree] at hthere
    cases hthere
  | made v token mover _ _ serial rest registered workers _ =>
    have hself := worker?_of_made workers (serial ▸ hfree)
    rw [serial, hthere] at hself
    cases hself
    refine ⟨serial, rest, serial ▸ hthere, mover, ?_⟩
    intro e he
    obtain ⟨-, hsubscriptions⟩ := Subscriptions.register_eq_ok registered
    have hmem := Subscriptions.mem_of_lookup? he
    rw [hsubscriptions] at hmem
    rcases List.mem_append.mp hmem with hold | hnew
    · have hlt := hrostered.entries_lt e hold
      rw [Subscriptions.serial_of_lookup? he, serial] at hlt
      exact absurd hlt (Nat.lt_irrefl _)
    · rw [List.mem_singleton.mp hnew]

/-- Nothing has been taken, used or accepted under a serial number to come. -/
structure Blank (first : Session) (past : List Move) (k : Nat) : Prop where
  taken : takenBy first k past = []
  used : usedBy first k past = []
  accepted : acceptedBy first k past = []

theorem Blank.move (h : Blank first past k) (hpast : first.run past = some s)
    (hrostered : s.Rostered) (hk : s.nextSerial ≤ k) (m : Move) : Blank first (past ++ [m]) k := by
  have hfree : s.worker? k = none := worker?_of_workers_lt hrostered.workers_lt hk
  have hentry : s.subscriptions.lookup? k = none := by
    apply List.find?_eq_none.mpr
    intro e he
    have hlt := hrostered.entries_lt e he
    simp only [beq_iff_eq]
    omega
  have hexchange : s.exchangeOf (.worker k) = none := by
    change (s.worker? k).bind Worker.exchange? = none
    rw [hfree, Option.bind_none]
  constructor
  · unfold takenBy
    rw [along_concat (takes k) hpast m]
    refine List.append_eq_nil_iff.mpr ⟨h.taken, ?_⟩
    rcases takes_cases k s m with hnone | ⟨e, he, -⟩
    · exact hnone
    · rw [hentry] at he
      cases he
  · rw [usedBy_concat hpast]
    exact List.append_eq_nil_iff.mpr ⟨h.used, hears_of_rest hexchange⟩
  · unfold acceptedBy
    rw [along_concat (accepts k) hpast m]
    refine List.append_eq_nil_iff.mpr ⟨h.accepted, ?_⟩
    unfold accepts
    rw [hentry]
    simp

/-- What a run leaves of subscriptions to come, of serial numbers without a worker, of operations that
have made no worker, and of the workers that have been made. -/
structure Audited (first : Session) (past : List Move) (s : Session) : Prop where
  blank : ∀ k, s.nextSerial ≤ k → Blank first past k
  quiet : ∀ k, (∀ w ∈ enlistments first past, w.serial ≠ k) → publishedBy first (.worker k) past = []
  silent : ∀ n, (∀ w ∈ enlistments first past, w.owner ≠ n) → s.callsOf n = []
  account : ∀ w ∈ enlistments first past, Account first past w s

/-- A worker that has just been made has taken nothing and called nobody. -/
theorem account_of_enlists (hblank : Blank first (past ++ [m]) s.nextSerial)
    (hquiet : publishedBy first (.worker s.nextSerial) (past ++ [m]) = [])
    (hrostered : s.Rostered) (hs : s.move m = some s') (hw : w ∈ s.enlists m)
    (hsilent : s'.callsOf w.owner = []) : Account first (past ++ [m]) w s' := by
  obtain ⟨hserial, hrest, hthere, -, hempty⟩ := made_of_enlists hrostered hs hw
  rw [← hserial] at hblank hquiet
  constructor
  · refine ⟨[], [], hsilent, ?_⟩
    rw [hblank.taken, hblank.used, hquiet, deliveryOf_eq hthere, hrest]
    refine ⟨rfl, rfl, rfl, rfl, ?_, ?_, ?_⟩
    · intro r hr
      cases hr
    · intro _ r hr
      cases hr
    · intro delivery hsome
      cases hsome
  · rw [hblank.taken]
    exact List.nil_prefix
  · intro e he
    rw [hblank.taken, hblank.accepted, hempty e he]
    rfl

theorem Audited.move (h : Audited first past s) (hpast : first.run past = some s)
    (hrostered : s.Rostered) (hroll : Roll (enlistments first past) s)
    (hroll' : Roll (enlistments first (past ++ [m])) s') (hs : s.move m = some s') :
    Audited first (past ++ [m]) s' := by
  have hle := (kept_move hs).2
  have hmade : enlistments first (past ++ [m]) = enlistments first past ++ s.enlists m :=
    along_concat enlists hpast m
  -- Without a worker nobody calls the handler, and neither does the move that makes one.
  have hsilent (n : Nat) (hn : ∀ w ∈ enlistments first past, w.owner ≠ n) : s'.callsOf n = [] := by
    rw [callsOf_of_other hroll hs fun v hv howner => absurd howner (hn v hv)]
    exact h.silent n hn
  have hquiet (k : Nat) (hk : ∀ w ∈ enlistments first past, w.serial ≠ k) :
      publishedBy first (.worker k) (past ++ [m]) = [] := by
    rw [publishedBy_concat hpast, h.quiet k hk, List.nil_append]
    refine publishes_of_other ?_
    rintro rfl
    obtain ⟨v, hv, -⟩ := worker_of_step hs
    obtain ⟨w, hw, hsame⟩ := hroll.present k v hv
    exact hk w hw ((congrArg Worker.serial hsame).symm.trans (worker?_serial hv))
  constructor
  · intro k hk
    exact (h.blank k (Nat.le_trans hle hk)).move hpast hrostered (Nat.le_trans hle hk) m
  · intro k hk
    refine hquiet k fun w hw => hk w ?_
    rw [hmade]
    exact List.mem_append_left _ hw
  · intro n hn
    refine hsilent n fun w hw => hn w ?_
    rw [hmade]
    exact List.mem_append_left _ hw
  · intro w hw
    have hall := hw
    rw [hmade] at hw
    rcases List.mem_append.mp hw with hw | hw
    · exact (h.account w hw).move hpast hrostered hroll hw hs
    · have hserial := (made_of_enlists hrostered hs hw).1
      have hblank := (h.blank s.nextSerial (Nat.le_refl _)).move hpast hrostered (Nat.le_refl _) m
      have hunlisted : publishedBy first (.worker s.nextSerial) (past ++ [m]) = [] :=
        hquiet s.nextSerial fun v hv => Nat.ne_of_lt (hroll.below v hv).1
      refine account_of_enlists hblank hunlisted hrostered hs hw (hsilent w.owner ?_)
      intro v hv howner
      have hv' : v ∈ enlistments first (past ++ [m]) := by
        rw [hmade]
        exact List.mem_append_left _ hv
      have hlt := (hroll.below v hv).1
      rw [hroll'.single v hv' w hall (.inr howner), hserial] at hlt
      exact Nat.lt_irrefl _ hlt

theorem audited_run {options : ConnectOptions} {pipe : Pipe} {messageIds : MessageIds}
    {tokens : Tokens} {timer : Timer}
    (hrun : (start options pipe messageIds tokens timer).run past = some s) :
    Audited (start options pipe messageIds tokens timer) past s := by
  let first := start options pipe messageIds tokens timer
  have hstart : Audited first [] first := by
    refine ⟨fun k _ => ⟨rfl, rfl, rfl⟩, fun k _ => rfl, fun n _ => rfl, ?_⟩
    intro w hw
    cases hw
  refine run_induction (P := Audited first) hstart ?_ hrun
  intro past s m s' hpast h hs
  obtain ⟨hrostered, hroll⟩ := roll_run hpast
  have hnext : first.run (past ++ [m]) = some s' := by
    rw [run_concat, hpast]
    exact hs
  exact h.move hpast hrostered hroll (roll_run hnext).2 hs

/-! After the stop. -/

/-- A worker that has to stop has to do so ever after. -/
theorem stopped_of_move (hrostered : s.Rostered) (hk : k < s.nextSerial) (h : s.isStopped k = true)
    (hs : s.move m = some s') : s'.isStopped k = true := by
  unfold isStopped at h ⊢
  rw [Subscriptions.holds_eq] at h ⊢
  rcases Bool.or_eq_true_iff.mp h with hshutdown | hgone
  · rw [(onward_of_move hs).shutdown hshutdown]
    rfl
  · cases he : s'.subscriptions.lookup? k with
    | none => simp
    | some e =>
      -- An entry that is there has been there before.
      have hback : ∃ p, s.subscriptions.lookup? k = some p := by
        by_cases hm : m = .step (.worker k)
        · cases upkeep_of_move hs with
          | made _ _ mover => rw [hm] at mover; cases mover
          | aside mover => rw [hm] at mover; cases mover
          | worked w mover there shift =>
            obtain rfl : k = w.serial := Task.worker.inj (Move.step.inj (hm.symm.trans mover))
            obtain ⟨p, hp, -⟩ := shift.lookup? there he
            exact ⟨p, hp⟩
        · obtain ⟨p, hp, -⟩ := lookup?_of_other hrostered hk hs hm he
          exact ⟨p, hp⟩
      obtain ⟨p, hp⟩ := hback
      rw [hp] at hgone
      cases hgone

/-- An exchange that has been cancelled sends nothing. -/
theorem sent_of_cancelled {c : Connection} {e : Exchange} {c' : Connection.Stepped}
    (h : c.step true e = some c') : c'.sent = none := by
  cases e with
  | begun request =>
    cases h
    rfl
  | checked request =>
    unfold Connection.step at h
    dsimp only at h
    split at h <;>
      · cases h
        rfl
  | registered request v =>
    unfold Connection.step at h
    dsimp only at h
    split at h <;>
      · cases h
        rfl
  | sending request v =>
    cases h
    rfl
  | waiting v deadline =>
    unfold Connection.step at h
    dsimp only at h
    split at h <;> cases h
    rfl
  | ended outcome => cases h

/-- How a worker that has to stop winds up: it has called nobody since, or it is done after one call. -/
structure Winding (w : Worker) (s s' : Session) : Prop where
  stopped : s'.isStopped w.serial = true
  sent : s'.sentBy (.worker w.serial) = s.sentBy (.worker w.serial)
  calls : ∃ more, s'.callsOf w.owner = s.callsOf w.owner ++ more ∧
    (more = [] ∨ more.length ≤ 1 ∧ s'.exchangeOf (.worker w.serial) = none)
  rest : s.exchangeOf (.worker w.serial) = none →
    s'.exchangeOf (.worker w.serial) = none ∧ s'.callsOf w.owner = s.callsOf w.owner

theorem sentBy_deliver (s : Session) (w : Worker) (next : Stride Delivery (Option Notification))
    (t : Task) : (s.deliver w next).sentBy t = s.sentBy t := by
  have hlog := log_deliver s w next
  unfold sentBy
  cases hturn : next.turn with
  | ask request delivery =>
    rw [hturn] at hlog
    rw [hlog]
  | finish result =>
    rw [hturn] at hlog
    cases result with
    | none => rw [hlog]
    | some notification =>
      rw [hlog, Array.toList_push, List.filterMap_append]
      exact List.append_nil _

/-- A step that winds the worker up. -/
theorem Winding.shift {s₁ s₂ : Session} (h : Winding w s s₁) (hserial : v.serial = w.serial)
    (howner : v.owner = w.owner) (hw : s₁.worker? v.serial = some v) (hshift : Shift s₁ s₂ v)
    (hstopped : s₂.isStopped w.serial = true) : Winding w s s₂ := by
  obtain ⟨more, hcalls, hmore⟩ := h.calls
  have hstop := h.stopped
  rw [← hserial] at hmore hstop
  -- Steps of a delivery: the worker has been at it since before the stop.
  have hbusy {delivery : Delivery} {e : Exchange} (hbusy : v.current = some (delivery, e)) :
      more = [] ∧ s.exchangeOf (.worker w.serial) ≠ none := by
    have hexchange := exchangeOf_of_busy hw hbusy
    constructor
    · rcases hmore with hnone | ⟨-, hrest⟩
      · exact hnone
      · rw [hexchange] at hrest
        cases hrest
    · intro hrest
      have hnone := (h.rest hrest).1
      rw [← hserial, hexchange] at hnone
      cases hnone
  cases hshift with
  | dismissed rest _ next =>
    have hgone : s₂.exchangeOf (.worker w.serial) = none := by
      have hnone : s₂.worker? v.serial = none := by
        rw [next]
        exact find?_filter_self Worker.serial s₁.workers
      change (s₂.worker? w.serial).bind Worker.exchange? = none
      rw [← hserial, hnone, Option.bind_none]
    have hsame : s₂.callsOf w.owner = s₁.callsOf w.owner := by
      rw [next]
      exact callsOf_dismiss s₁ v w.owner
    have hsent : s₂.sentBy (.worker w.serial) = s₁.sentBy (.worker w.serial) := by
      rw [next]
      unfold dismiss sentBy note
      rw [Array.toList_push, List.filterMap_append]
      exact List.append_nil _
    refine ⟨hstopped, hsent.trans h.sent, ⟨more, hsame.trans hcalls, ?_⟩, ?_⟩
    · rcases hmore with hnone | ⟨hlength, -⟩
      · exact .inl hnone
      · exact .inr ⟨hlength, hgone⟩
    · intro hrest
      exact ⟨hgone, hsame.trans (h.rest hrest).2⟩
  | started a subscriptions _ going _ _ =>
    rw [hstop] at going
    cases going
  | resumed delivery answer busy next =>
    obtain ⟨rfl, hrest⟩ := hbusy busy
    let turn := delivery.resume answer
    have hsent : s₂.sentBy (.worker w.serial) = s₁.sentBy (.worker w.serial) := by
      rw [next]
      exact sentBy_deliver s₁ v turn _
    have hafter : s₂.callsOf w.owner = s₁.callsOf w.owner ++
        turn.called.toList.map fun n => (n, v.handler n) := by
      rw [next, ← howner]
      exact callsOf_deliver s₁ v turn
    have hexchange : s₂.exchangeOf (.worker w.serial) = turn.pending.map Prod.snd := by
      rw [next, ← hserial]
      exact exchangeOf_worker (worker?_deliver hw)
    refine ⟨hstopped, hsent.trans h.sent, ⟨turn.called.toList.map fun n => (n, v.handler n), ?_, ?_⟩,
      fun hnone => absurd hnone hrest⟩
    · rw [hafter, hcalls, List.append_nil]
    · -- Either the delivery goes on and has called nobody, or it is over.
      rw [hexchange]
      unfold Stride.called Stride.pending
      cases turn.turn with
      | ask request delivery => exact .inl rfl
      | finish result => cases result <;> exact .inr ⟨by simp, rfl⟩
  | exchanged delivery e c busy going step next =>
    obtain ⟨rfl, hrest⟩ := hbusy busy
    rw [hstop] at step
    have hlog := log_absorb s₁ (.worker v.serial) c
    rw [sent_of_cancelled step] at hlog
    have hsame : s₂.log = s₁.log := by
      rw [next]
      exact hlog
    have hsent : s₂.sentBy (.worker w.serial) = s₁.sentBy (.worker w.serial) := by
      unfold sentBy
      rw [hsame]
    exact ⟨hstopped, hsent.trans h.sent, ⟨[], (callsOf_of_log hsame _).trans hcalls, .inl rfl⟩,
      fun hnone => absurd hnone hrest⟩

theorem Winding.move {s₁ s₂ : Session} (h : Winding w s s₁) (hrostered : s₁.Rostered)
    (hroll : Roll made s₁) (hw : w ∈ made) (hs : s₁.move m = some s₂) : Winding w s s₂ := by
  have hk := (hroll.below w hw).1
  have hstopped := stopped_of_move hrostered hk h.stopped hs
  by_cases hm : m = .step (.worker w.serial)
  · subst hm
    cases upkeep_of_move hs with
    | made _ _ mover => cases mover
    | aside mover => cases mover
    | worked v mover there shift =>
      have hserial : v.serial = w.serial := (Task.worker.inj (Move.step.inj mover)).symm
      have hsame := hroll.same hw (hserial ▸ there)
      have howner : v.owner = w.owner := by rw [hsame]
      exact h.shift hserial howner there shift hstopped
  · have hcalls : s₂.callsOf w.owner = s₁.callsOf w.owner := by
      refine callsOf_of_other hroll hs ?_
      intro v hv howner heq
      rw [hroll.single v hv w hw (.inr howner)] at heq
      exact hm heq
    have hexchange : s₂.exchangeOf (.worker w.serial) = s₁.exchangeOf (.worker w.serial) :=
      exchangeOf_of_other hs hm nofun
    obtain ⟨more, hmore, hdone⟩ := h.calls
    refine ⟨hstopped, (sentBy_of_other hs hm).trans h.sent, ⟨more, hcalls.trans hmore, ?_⟩, ?_⟩
    · rw [hexchange]
      exact hdone
    · intro hrest
      rw [hexchange, hcalls]
      exact h.rest hrest

/-- A worker that need not stop, and is at rest, takes what waits first. -/
theorem goes_of_account (haccount : Account first past w s) (hpast : first.run past = some s)
    (hrostered : s.Rostered) (hgoing : s.isStopped w.serial = false)
    (hrest : s.exchangeOf (.worker w.serial) = none) {a : Message}
    (ha : takenBy first w.serial past ++ [a] <+: acceptedBy first w.serial past) :
    (∃ s', s.step (.worker w.serial) = some s') ∧
    takenBy first w.serial (past ++ [.step (.worker w.serial)]) =
      takenBy first w.serial past ++ [a] := by
  have hstop := hgoing
  unfold isStopped at hgoing
  rw [Bool.or_eq_false_iff, Bool.not_eq_false', Subscriptions.holds_eq] at hgoing
  obtain ⟨hshutdown, hholds⟩ := hgoing
  obtain ⟨e, he⟩ := Option.isSome_iff_exists.mp hholds
  -- The queue is what is left of the notifications that have been accepted.
  rw [← haccount.queue e he, List.prefix_append_right_inj] at ha
  obtain ⟨rest, hqueue⟩ := ha
  have htake : ∃ t, s.subscriptions.take w.serial = some (a, t) := by
    have hfind : (s.subscriptions.entries.find? fun e => e.serial == w.serial) = some e := he
    unfold Subscriptions.take
    rw [hfind]
    dsimp only
    rw [← hqueue]
    exact ⟨_, rfl⟩
  obtain ⟨subscriptions, htake⟩ := htake
  constructor
  · obtain ⟨v, hv⟩ := hrostered.employed hshutdown e (Subscriptions.mem_of_lookup? he)
    rw [Subscriptions.serial_of_lookup? he] at hv
    have hserial := worker?_serial hv
    have hnone : v.current = none := by
      rw [exchangeOf_worker hv] at hrest
      exact Option.map_eq_none_iff.mp hrest
    rw [step_of_worker? hv]
    unfold stepWorker
    rw [hnone, hserial, hstop, htake]
    exact ⟨_, rfl⟩
  · unfold takenBy
    rw [along_concat (takes w.serial) hpast, takes_of_rest hrest hstop htake]

/-- Nothing is taken, requested or, but for a delivery under way, called after the stop. -/
theorem winding_run {options : ConnectOptions} {pipe : Pipe} {messageIds : MessageIds}
    {tokens : Tokens} {timer : Timer} {later : List Move}
    (hrun : (start options pipe messageIds tokens timer).run past = some s)
    (hw : w ∈ enlistments (start options pipe messageIds tokens timer) past)
    (hstopped : s.isStopped w.serial = true) (hlater : s.run later = some s') :
    Winding w s s' ∧ takenBy (start options pipe messageIds tokens timer) w.serial (past ++ later) =
      takenBy (start options pipe messageIds tokens timer) w.serial past := by
  let first := start options pipe messageIds tokens timer
  have hstart : Winding w s s ∧
      takenBy first w.serial (past ++ []) = takenBy first w.serial past := by
    refine ⟨⟨hstopped, rfl, ⟨[], (List.append_nil _).symm, .inl rfl⟩, fun h => ⟨h, rfl⟩⟩, ?_⟩
    rw [List.append_nil]
  refine run_induction (P := fun later s' => Winding w s s' ∧
    takenBy first w.serial (past ++ later) = takenBy first w.serial past) hstart ?_ hlater
  intro later s₁ m s₂ hlater ⟨hwinding, htaken⟩ hs
  have hrun' : first.run (past ++ later) = some s₁ := run_append hrun hlater
  obtain ⟨hrostered, hroll⟩ := roll_run hrun'
  have hw' : w ∈ enlistments first (past ++ later) := by
    unfold enlistments
    rw [along_append enlists hrun later]
    exact List.mem_append_left _ hw
  refine ⟨hwinding.move hrostered hroll hw' hs, ?_⟩
  rw [← List.append_assoc]
  unfold takenBy at htaken ⊢
  rw [along_concat (takes w.serial) hrun', takes_of_stopped hwinding.stopped, List.append_nil, htaken]

/-- Whatever has become of a worker that was made, it has been served. -/
theorem served_of_run {options : ConnectOptions} {pipe : Pipe} {messageIds : MessageIds}
    {tokens : Tokens} {timer : Timer} {past : List Move} {s : Session}
    (hrun : (start options pipe messageIds tokens timer).run past = some s)
    (hw : w ∈ enlistments (start options pipe messageIds tokens timer) past) :
    Served (start options pipe messageIds tokens timer) past w s := by
  have haccount := (audited_run hrun).account w hw
  have hrostered := (roll_run hrun).1
  refine ⟨?_, haccount.order, haccount.queue, ?_, ?_⟩
  · obtain ⟨calls, rounds, hcalls, haccounts⟩ := haccount.rounds
    refine ⟨rounds, haccounts.messages, haccounts.answers, ?_, haccounts.sound, haccounts.earlier, ?_⟩
    · rw [haccounts.calls]
      exact hcalls
    · intro hrest
      refine haccounts.finished ?_
      have hnone : ((s.worker? w.serial).bind Worker.current).map Prod.snd = none := by
        rw [Option.map_bind]
        exact hrest
      unfold deliveryOf
      rw [Option.map_eq_none_iff.mp hnone]
      rfl
  · intro hgoing hrest a ha
    exact goes_of_account haccount hrun hrostered hgoing hrest ha
  · intro hstopped later s' hlater
    obtain ⟨hwinding, htaken⟩ := winding_run hrun hw hstopped hlater
    obtain ⟨more, hcalls, hmore⟩ := hwinding.calls
    refine ⟨htaken, hwinding.sent, more, hcalls, ?_, ?_⟩
    · rcases hmore with rfl | ⟨hlength, -⟩
      · exact Nat.zero_le 1
      · exact hlength
    · intro hrest
      have hsame := (hwinding.rest hrest).2
      rw [hcalls] at hsame
      exact List.append_right_eq_self.mp hsame

/-- In every run of a client, and for every subscription, notifications are delivered in the order in
which they were accepted, each at most once, and exactly as its own delivery demands. Handlers that
react otherwise at any of their calls change nothing but their reactions. -/
theorem notifications_in_order {options : ConnectOptions} {pipe : Pipe} {messageIds : MessageIds}
    {tokens : Tokens} {timer : Timer} {past : List Move} {s : Session}
    (hrun : (start options pipe messageIds tokens timer).run past = some s) :
    (∀ w ∈ enlistments (start options pipe messageIds tokens timer) past,
      Served (start options pipe messageIds tokens timer) past w s) ∧
    ∀ t, Reacts (start options pipe messageIds tokens timer) past t → t.mute = s.mute := by
  constructor
  · intro w hw
    exact served_of_run hrun hw
  · intro t ht
    obtain ⟨r, hr, hsame⟩ := ht.mute_run
    rw [hrun] at hr
    cases hr
    exact hsame

/-- The client of the run below. -/
def notifiedClient : Session :=
  let options : ConnectOptions :=
    { host := "", port := 0, timeout := 1, blockSize := .s16, blockTransfer := true
      credentials := none }
  start options {} { next := 0 } { base := 0 }

/-- Four notifications arrive for an observation whose handler crashes at the first of them; the second
one is stale, and the third one no response. -/
def notifiedMoves : List Move :=
  let steps (t : Task) (k : Nat) : List Move := List.replicate k (.step t)
  let handler : Handler := fun n => if n.sequence = some 6 then .crashed else .handled
  let get : Request := { message := { type := .confirmable, code := .request .get } }
  let answer : Message :=
    { type := .acknowledgement, code := .response .content, id := 0, options := [.observe 5] }
  let notice (code : Code) (sequence : UInt32) : Move :=
    .input (.message { type := .nonConfirmable, code, id := 9, token := Wire.eightBytes 0,
                       options := [.observe sequence] })
  [.input (.call (.observe get handler) false)] ++ steps (.operation 0) 6 ++
    [.input (.message answer), .step .receiver] ++ steps (.operation 0) 3 ++
    [notice (.response .content) 6, notice (.response .content) 6, notice .empty 7,
      notice (.response .content) 8] ++ steps .receiver 4 ++ steps (.worker 1) 3

/-- The handler is called for the first notification and for the last one. -/
theorem crash_leaves_later_notifications : ∃ s, notifiedClient.run notifiedMoves = some s ∧
    (∀ w ∈ enlistments notifiedClient notifiedMoves, Served notifiedClient notifiedMoves w s) ∧
    (enlistments notifiedClient notifiedMoves).map Worker.owner = [0] ∧
    (s.callsOf 0).map (fun c => (c.1.sequence, c.2)) = [(some 6, .crashed), (some 8, .handled)] := by
  have hends : (notifiedClient.run notifiedMoves).map (fun s =>
      (s.callsOf 0).map fun c => (c.1.sequence, c.2)) =
      some [(some 6, .crashed), (some 8, .handled)] := rfl
  obtain ⟨s, hs, hcalls⟩ := Option.map_eq_some_iff.mp hends
  exact ⟨s, hs, (notifications_in_order hs).1, rfl, hcalls⟩

end Session

end Coap

import Coap.Proofs.DeskHistory

/-! What a waiter gets from its wait, and when: whatever is delivered reaches it, and it gives up by
itself only after the time that it allows. -/
namespace Coap.Desk

variable {timer : Timer} {d : Desk} {w : Waiter}

/-- A waiter that has been handed out and is not live any more. -/
def Gone (d : Desk) (w : Waiter) : Prop := w ∉ d.live ∧ w.ticket < d.exchanges.nextTicket

/-- No ticket is handed out twice, so that a waiter that is gone does not come back. -/
theorem gone_act (h : d.exchanges.Serves d.live) (hw : d.Gone w) (a : Action) : (d.act a).Gone w := by
  obtain ⟨hgone, hlt⟩ := hw
  cases effect h a with
  | kept table live =>
    refine ⟨fun hm => hgone (live.mem_iff.mp hm), ?_⟩
    rw [table]
    exact hlt
  | registered v action table live =>
    obtain ⟨hticket, hnext, -⟩ := Exchanges.register_eq_ok table
    refine ⟨fun hm => ?_, by omega⟩
    rcases List.mem_append.mp (live.mem_iff.mp hm) with hm | hm
    · exact hgone hm
    · rw [List.mem_singleton.mp hm] at hlt
      omega
  | decided p r table live =>
    refine ⟨?_, ?_⟩
    · rw [live]
      exact hgone
    · rw [table.nextTicket]
      exact hlt
  | released v mem table sub live =>
    refine ⟨fun hm => hgone ((live w).mp hm).1, ?_⟩
    rw [table]
    exact hlt

/-- A wait stays as it is until its waiter goes. -/
theorem wait_act (h : d.exchanges.Serves d.live) {v : Wait} (hv : v ∈ d.waits) (a : Action) :
    v ∈ (d.act a).waits ∨ (d.act a).Gone v.waiter := by
  have hsame (a : Action) (hact : d.act a = d) : v ∈ (d.act a).waits ∨ (d.act a).Gone v.waiter := by
    rw [hact]
    exact .inl hv
  -- Only the end of the wait itself takes it away, and takes the waiter with it.
  have hended (a : Action) (u : Wait) (hu : u ∈ d.waits) (hact : d.act a = d.without u) :
      v ∈ (d.act a).waits ∨ (d.act a).Gone v.waiter := by
    rw [hact]
    by_cases ht : v.waiter.ticket = u.waiter.ticket
    · have hsame : v.waiter = u.waiter :=
        h.eq_of_ticket (waiter_mem_live hv) (waiter_mem_live hu) ht
      refine .inr ⟨?_, h.ticket_lt v.waiter (waiter_mem_live hv)⟩
      intro hm
      exact ((live_without h hu v.waiter).mp hm).2 hsame
    · exact .inl (List.mem_filter.mpr ⟨hv, by simpa using ht⟩)
  cases a with
  | register id =>
    rcases d.register_cases id with hact | ⟨w, x, -, -, hact⟩
    · exact hsame _ hact
    · rw [hact]
      exact .inl hv
  | wait ticket limit token =>
    rcases d.wait_cases ticket limit token with hact | ⟨w, -, hact⟩
    · exact hsame _ hact
    · rw [hact]
      exact .inl (List.mem_append_left _ hv)
  | drop ticket =>
    rcases d.drop_cases ticket with hact | ⟨w, -, hact⟩
    · exact hsame _ hact
    · rw [hact]
      exact .inl hv
  | abort ticket =>
    rcases d.abort_cases ticket with hact | ⟨u, hu, hact⟩
    · exact hsame _ hact
    · exact hended _ u hu hact
  | ask ticket =>
    rcases ask_cases h ticket with hask | ⟨u, hu, r, hask, -⟩
    · exact hsame _ (congrArg Prod.snd hask)
    · exact hended _ u hu (congrArg Prod.snd hask)
  | _ => exact .inl hv

theorem gone_run (h : d.exchanges.Serves d.live) (hw : d.Gone w) (actions : List Action) :
    (actions.foldl act d).Gone w := by
  induction actions generalizing d with
  | nil => exact hw
  | cons a actions ih => exact ih (serves_act h a) (gone_act h hw a)

theorem wait_run (h : d.exchanges.Serves d.live) {v : Wait} (hv : v ∈ d.waits)
    (actions : List Action) :
    v ∈ (actions.foldl act d).waits ∨ (actions.foldl act d).Gone v.waiter := by
  induction actions generalizing d with
  | nil => exact .inl hv
  | cons a actions ih =>
    rcases wait_act h hv a with hv | hg
    · exact ih (serves_act h a) hv
    · exact .inr (gone_run (serves_act h a) hg actions)

/-- A message that has been delivered is all that is ever delivered to that waiter. -/
theorem deliveries_of_complete {before later : List Action} {m : Message}
    (hp : w ∈ (after timer before).exchanges.pending) (hid : w.id = m.id) :
    deliveries timer w (before ++ .complete m :: later) = [.ok m] := by
  have hnow : (after timer before).delivered w (.complete m) = [.ok m] := if_pos ⟨hp, hid⟩
  have hall : deliveries timer w (before ++ .complete m :: later) =
      deliveries timer w before ++ ([.ok m] ++
        along (fun d => d.delivered w) ((after timer before).act (.complete m)) later) := by
    rw [← hnow]
    exact along_append _ _ _ _
  -- There is at most one delivery in all, and this is one.
  have honce := (ledger timer (before ++ .complete m :: later)).once w
  rw [hall] at honce ⊢
  simp only [List.length_append, List.length_singleton] at honce
  have hbefore : deliveries timer w before = [] := List.eq_nil_of_length_eq_zero (by omega)
  have hlater : along (fun d => d.delivered w) ((after timer before).act (.complete m)) later = [] :=
    List.eq_nil_of_length_eq_zero (by omega)
  rw [hbefore, hlater]
  rfl

/-- A wait gives back what has been delivered, whatever its deadline or cancellation. -/
theorem ask_of_delivered {actions : List Action} {v : Wait} {r : Outcome}
    (hv : v ∈ (after timer actions).waits) (hr : deliveries timer v.waiter actions = [r]) :
    ((after timer actions).ask v.waiter.ticket).1 = some (v.waiter, r) := by
  have hl := ledger timer actions
  have hslot := hl.slot v.waiter (waiter_mem_live hv)
  rw [hr] at hslot
  rcases ask_wait hl.serves hv with ⟨o, hask, hd | hu⟩ | ⟨hu, -⟩
  · have ho : [o] = [r] := hd.2.symm.trans hslot
    rw [hask, List.singleton_inj.mp ho]
  · have hnil : [r] = [] := hslot.symm.trans hu.1.2
    cases hnil
  · have hnil : [r] = [] := hslot.symm.trans hu.2
    cases hnil

/-- A wait that begins with an idle waiter has the end that its limit gives it. -/
theorem wait_begins {limit : Nat} {token : Option String} (h : d.exchanges.Serves d.live)
    (hw : w ∈ d.idle) :
    { waiter := w, deadline := d.timer.wake d.clock limit, token } ∈
      (d.act (.wait w.ticket limit token)).waits := by
  have hfind := find?_idle h hw
  simp [act, wait, hfind]

theorem live_of_ask {ticket : Nat} {r : Outcome} (h : d.exchanges.Serves d.live)
    (hask : (d.ask ticket).1 = some (w, r)) : w ∈ d.live := by
  rcases ask_cases h ticket with hnone | ⟨v, hv, o, hsome, -⟩
  · rw [hnone] at hask
    cases hask
  · rw [hsome] at hask
    cases hask
    exact waiter_mem_live hv

@[simp]
theorem timer_act (d : Desk) (a : Action) : (d.act a).timer = d.timer := by
  cases a with
  | register id =>
    rcases d.register_cases id with hact | ⟨w, x, -, -, hact⟩ <;> rw [hact]
  | wait ticket limit token =>
    rcases d.wait_cases ticket limit token with hact | ⟨w, -, hact⟩ <;> rw [hact]
  | drop ticket =>
    rcases d.drop_cases ticket with hact | ⟨w, -, hact⟩ <;> rw [hact]
  | abort ticket =>
    rcases d.abort_cases ticket with hact | ⟨v, -, hact⟩ <;> rw [hact]; rfl
  | ask ticket =>
    change (d.ask ticket).2.timer = d.timer
    unfold ask
    split
    · rfl
    · split <;> rfl
  | _ => rfl

theorem timer_after (actions : List Action) : (after timer actions).timer = timer := by
  induction actions using List.reverseRecOn with
  | nil => rfl
  | append_singleton actions a ih => rw [after_concat, timer_act, ih]

/-- A wait gives up by its own limit only when nothing has been delivered and the time is over. -/
theorem timed_out_late (htimer : timer.Sleeps) {before later : List Action} {limit : Nat}
    {token : Option String}
    (hw : w ∈ (after timer before).idle)
    (hask : ((after timer (before ++ .wait w.ticket limit token :: later)).ask w.ticket).1 =
      some (w, .error .timedOut)) :
    deliveries timer w (before ++ .wait w.ticket limit token :: later) = [.error .timedOut] ∨
      deliveries timer w (before ++ .wait w.ticket limit token :: later) = [] ∧
      (after timer before).clock + limit ≤
        (after timer (before ++ .wait w.ticket limit token :: later)).clock := by
  -- The waiter is live when it is asked, so its wait is still the one that began with the limit.
  have hl := ledger timer (before ++ .wait w.ticket limit token :: later)
  have hlive := live_of_ask hl.serves hask
  have hbegun := serves_act (ledger timer before).serves (.wait w.ticket limit token)
  rcases wait_run hbegun (wait_begins (ledger timer before).serves hw) later with hv | hgone
  · have hafter : after timer (before ++ .wait w.ticket limit token :: later) =
        later.foldl act ((after timer before).act (.wait w.ticket limit token)) := by
      unfold after
      rw [List.foldl_append, List.foldl_cons]
    rw [← hafter] at hv
    rcases ask_wait hl.serves hv with ⟨r, hr, hcase⟩ | ⟨-, hr⟩
    · rw [hr] at hask
      cases hask
      rcases hcase with hd | ⟨hu, hcancel | hlate⟩
      · exact .inl (hl.delivered_of_decided hlive hd)
      · cases hcancel
      · have hwake := hlate.2
        rw [timer_after] at hwake
        exact .inr ⟨hl.delivered_of_undecided hlive hu, Nat.le_trans (htimer _ _) hwake⟩
    · rw [hr] at hask
      cases hask
  · have hgone' : w ∉ (after timer (before ++ .wait w.ticket limit token :: later)).live := by
      unfold after
      rw [List.foldl_append, List.foldl_cons]
      exact hgone.1
    exact absurd hlive hgone'

/-- There are no more tickets than registrations. -/
theorem nextTicket_le (timer : Timer) (actions : List Action) :
    (after timer actions).exchanges.nextTicket ≤ registrations actions := by
  induction actions using List.reverseRecOn with
  | nil => exact Nat.le_refl 0
  | append_singleton actions a ih =>
    have hsum : registrations (actions ++ [a]) = registrations actions + registrations [a] :=
      List.countP_append
    rw [after_concat, hsum]
    cases effect (ledger timer actions).serves a with
    | kept table =>
      rw [table]
      exact Nat.le_add_right_of_le ih
    | registered w action table =>
      obtain ⟨-, hnext, -⟩ := Exchanges.register_eq_ok table
      have hone : registrations [a] = 1 := by
        rw [action]
        rfl
      omega
    | decided p r table =>
      rw [table.nextTicket]
      exact Nat.le_add_right_of_le ih
    | released w mem table =>
      rw [table]
      exact Nat.le_add_right_of_le ih

/-- Under an id that is free a new waiter is registered, and nothing is decided for it yet. -/
theorem registers (actions : List Action) {id : UInt16}
    (hid : id ∉ (after timer actions).exchanges.ids) :
    ∃ w, w.id = id ∧ w ∉ (after timer actions).live ∧
      w ∈ ((after timer actions).act (.register id)).idle ∧
      ((after timer actions).act (.register id)).exchanges.Undecided w := by
  have hl := ledger timer actions
  let w : Waiter := ⟨id, (after timer actions).exchanges.nextTicket⟩
  have hact : (after timer actions).act (.register id) = { after timer actions with
      exchanges := { (after timer actions).exchanges with
        pending := (after timer actions).exchanges.pending ++ [w]
        nextTicket := (after timer actions).exchanges.nextTicket + 1 }
      idle := (after timer actions).idle ++ [w] } := by
    simp [act, register, Exchanges.register_of_ids hid, Except.map, w]
  refine ⟨w, rfl, ?_, ?_, ?_, ?_⟩
  · intro hw
    exact Nat.lt_irrefl _ (hl.serves.ticket_lt w hw)
  · rw [hact]
    exact List.mem_append_right _ (List.mem_singleton_self _)
  · rw [hact]
    exact List.mem_append_right _ (List.mem_singleton_self _)
  · rw [hact]
    exact hl.serves.slot_of_fresh (Nat.le_refl _)

/-- Every registered exchange is decided exactly once, whatever happens in whatever order. An id that
is free can always be registered; a live waiter has its entry and no result, or one result and no
entry; nothing is delivered or given back twice; and a wait gives back what has been delivered, or
gives up, by its own limit only when the time it allows is over. -/
theorem decided_exactly_once (htimer : timer.Sleeps) (actions : List Action) :
    let d := after timer actions
    (∀ w ∈ d.live,
      d.exchanges.Undecided w ∧ deliveries timer w actions = [] ∧ (∀ r, ¬ d.exchanges.Decided w r) ∨
      ¬ d.exchanges.Undecided w ∧ ∃ r, d.exchanges.Decided w r ∧ deliveries timer w actions = [r]) ∧
    (∀ w ∈ d.exchanges.pending, w ∈ d.live) ∧
    (∀ id, id ∉ d.exchanges.ids → ∃ w, w.id = id ∧ w ∉ d.live ∧ w ∈ (d.act (.register id)).idle ∧
      (d.act (.register id)).exchanges.Undecided w) ∧
    (∀ m, (d.complete m).1 = true ↔ m.id ∈ d.exchanges.ids) ∧
    (∀ id, (d.cancel id).1 = true ↔ id ∈ d.exchanges.ids) ∧
    (∀ w, (deliveries timer w actions).length ≤ 1 ∧ (endings timer w actions = [] ∨ ∃ r,
      endings timer w actions = [r] ∧
        (deliveries timer w actions = [r] ∨ deliveries timer w actions = [] ∧ GivesUp r))) ∧
    (∀ before m later w, actions = before ++ .complete m :: later →
      w ∈ (after timer before).exchanges.pending → w.id = m.id →
      (∀ v ∈ d.waits, v.waiter = w → (d.ask w.ticket).1 = some (w, .ok m)) ∧
      ∀ r ∈ endings timer w actions, r = .ok m) ∧
    (∀ before limit token later w, actions = before ++ .wait w.ticket limit token :: later →
      w ∈ (after timer before).idle → (d.ask w.ticket).1 = some (w, .error .timedOut) →
      deliveries timer w actions = [.error .timedOut] ∨ deliveries timer w actions = [] ∧
        (after timer before).clock + limit ≤ d.clock) ∧
    (∀ w ∈ d.live, d.exchanges.result? w = none → w ∈ d.exchanges.pending) ∧
    d.exchanges.nextTicket ≤ registrations actions := by
  intro d
  have hl := ledger timer actions
  refine ⟨?_, hl.serves.pending_live, fun _ hid => registers actions hid, fun m => ?_,
    fun id => ?_, fun w => ⟨hl.once w, hl.given w⟩, ?_, ?_, ?_, nextTicket_le timer actions⟩
  · intro w hw
    rcases hl.serves.either w hw with hu | ⟨r, hr⟩
    · exact .inl ⟨hu, hl.delivered_of_undecided hw hu, fun r hr => hr.1 hu.1⟩
    · exact .inr ⟨fun hu => hr.1 hu.1, r, hr, hl.delivered_of_decided hw hr⟩
  · exact Exchanges.resolve_found d.exchanges m.id (.ok m)
  · exact Exchanges.resolve_found d.exchanges id (.error .cancelled)
  · rintro before m later w rfl hp hid
    have hdelivered : deliveries timer w (before ++ .complete m :: later) = [.ok m] :=
      deliveries_of_complete hp hid
    constructor
    · rintro v hv rfl
      exact ask_of_delivered hv hdelivered
    · intro r hr
      rcases hl.given w with hnil | ⟨o, ho, hcase⟩
      · rw [hnil] at hr
        cases hr
      · rw [ho] at hr
        rw [List.mem_singleton.mp hr]
        rcases hcase with hd | ⟨hd, -⟩
        · rw [hdelivered] at hd
          exact (List.singleton_inj.mp hd).symm
        · rw [hdelivered] at hd
          cases hd
  · rintro before limit token later w rfl hw hask
    exact timed_out_late htimer hw hask
  · intro w hw hnone
    rcases hl.serves.either w hw with hu | ⟨r, hr⟩
    · exact hu.1
    · rw [Exchanges.result?_eq_head?, hr.2] at hnone
      cases hnone

/-- Two exchanges that are waited for ten nanoseconds each. The first is answered before the time is
over. -/
def answeredActions (m : Message) : List Action :=
  [.register 7, .register 8, .wait 0 10 none, .wait 1 10 none, .complete m, .advance 10]

/-- The first wait gives the answer although it is asked late; the second one gives up, and not early. -/
theorem answered_and_silent_waits_end :
    let m : Message := { type := .acknowledgement, code := .response .content, id := 7 }
    let d := after .exact (answeredActions m)
    Timer.exact.Sleeps ∧ (d.ask 0).1 = some (⟨7, 0⟩, .ok m) ∧
      (d.ask 1).1 = some (⟨8, 1⟩, .error .timedOut) ∧
      deliveries .exact ⟨8, 1⟩ (answeredActions m) = [] ∧ 10 ≤ d.clock := by
  intro m d
  obtain ⟨-, -, -, -, -, -, hcompleted, hlate, -⟩ :=
    decided_exactly_once Timer.exact_sleeps (answeredActions m)
  have hsilent : (d.ask 1).1 = some (⟨8, 1⟩, .error .timedOut) := rfl
  have hanswered : (d.ask 0).1 = some (⟨7, 0⟩, .ok m) := by
    have hpending : (⟨7, 0⟩ : Waiter) ∈ (after .exact [.register 7, .register 8, .wait 0 10 none,
        .wait 1 10 none]).exchanges.pending := by decide
    have hwait : (⟨⟨7, 0⟩, Timer.exact.wake 0 10, none⟩ : Wait) ∈ d.waits := List.mem_cons_self
    exact (hcompleted [.register 7, .register 8, .wait 0 10 none, .wait 1 10 none] m [.advance 10]
      ⟨7, 0⟩ rfl hpending rfl).1 _ hwait rfl
  have hidle : (⟨8, 1⟩ : Waiter) ∈
      (after .exact [.register 7, .register 8, .wait 0 10 none]).idle := List.mem_cons_self
  rcases hlate [.register 7, .register 8, .wait 0 10 none] 10 none [.complete m, .advance 10] ⟨8, 1⟩
    rfl hidle hsilent with hdelivered | ⟨hnothing, htime⟩
  · cases hdelivered
  · exact ⟨Timer.exact_sleeps, hanswered, hsilent, hnothing, htime⟩

end Coap.Desk

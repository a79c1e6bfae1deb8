import Coap.Proofs.DeskActions
import Mathlib.Data.List.Induction

/-! Any sequence of actions at a desk: every exchange that is registered is decided at most once,
and its waiter gets what has been decided. -/
namespace Coap.Desk

/-- The desk after a sequence of actions, from an empty one. -/
def after (timer : Timer) (actions : List Action) : Desk := actions.foldl act { timer }

/-- What the actions of a sequence bring about, one after the other. -/
def along (f : Desk → Action → List Outcome) (d : Desk) : List Action → List Outcome
  | [] => []
  | a :: rest => f d a ++ along f (d.act a) rest

/-- All that has been put into a waiter's slot. -/
def deliveries (timer : Timer) (w : Waiter) (actions : List Action) : List Outcome :=
  along (fun d => d.delivered w) { timer } actions

/-- All that a waiter's wait has given back. -/
def endings (timer : Timer) (w : Waiter) (actions : List Action) : List Outcome :=
  along (fun d => d.given w) { timer } actions

/-- The number of times that an exchange has been registered, or refused. -/
def registrations (actions : List Action) : Nat :=
  actions.countP fun a => match a with
    | .register _ => true
    | _ => false

variable {timer : Timer} {d : Desk} {w : Waiter}

theorem after_concat (actions : List Action) (a : Action) :
    after timer (actions ++ [a]) = (after timer actions).act a := by
  unfold after
  rw [List.foldl_append, List.foldl_cons, List.foldl_nil]

theorem along_append (f : Desk → Action → List Outcome) (d : Desk) (as bs : List Action) :
    along f d (as ++ bs) = along f d as ++ along f (as.foldl act d) bs := by
  induction as generalizing d with
  | nil => rfl
  | cons a as ih => rw [List.cons_append, along, along, ih, List.foldl_cons, List.append_assoc]

theorem deliveries_concat (w : Waiter) (actions : List Action) (a : Action) :
    deliveries timer w (actions ++ [a]) =
      deliveries timer w actions ++ (after timer actions).delivered w a := by
  unfold deliveries
  rw [along_append]
  simp [along, after]

theorem endings_concat (w : Waiter) (actions : List Action) (a : Action) :
    endings timer w (actions ++ [a]) =
      endings timer w actions ++ (after timer actions).given w a := by
  unfold endings
  rw [along_append]
  simp [along, after]

/-- What is true of a desk, of all that it has delivered and of all that its waits have given back.
-/
structure Ledger (d : Desk) (delivered given : Waiter → List Outcome) : Prop where
  serves : d.exchanges.Serves d.live
  slot : ∀ w ∈ d.live, d.exchanges.slot w.ticket = delivered w
  waiting : ∀ w ∈ d.live, given w = []
  fresh : ∀ w, d.exchanges.nextTicket ≤ w.ticket → delivered w = [] ∧ given w = []
  once : ∀ w, (delivered w).length ≤ 1
  given : ∀ w, given w = [] ∨
    ∃ r, given w = [r] ∧ (delivered w = [r] ∨ delivered w = [] ∧ GivesUp r)

variable {delivered given : Waiter → List Outcome}

theorem Ledger.delivered_of_undecided (h : Ledger d delivered given) (hw : w ∈ d.live)
    (hu : d.exchanges.Undecided w) : delivered w = [] :=
  (h.slot w hw).symm.trans hu.2

theorem Ledger.delivered_of_decided {r : Outcome} (h : Ledger d delivered given) (hw : w ∈ d.live)
    (hr : d.exchanges.Decided w r) : delivered w = [r] :=
  (h.slot w hw).symm.trans hr.2

theorem Ledger.undecided_of_pending (h : Ledger d delivered given) (hw : w ∈ d.exchanges.pending) :
    d.exchanges.Undecided w := by
  rcases h.serves.either w (h.serves.pending_live w hw) with hu | ⟨r, hr⟩
  · exact hu
  · exact absurd hw hr.1

theorem ledger_empty : Ledger { timer } (fun _ => []) (fun _ => []) where
  serves := Exchanges.serves_empty
  slot := fun _ hw => absurd hw List.not_mem_nil
  waiting := fun _ _ => rfl
  fresh := fun _ _ => ⟨rfl, rfl⟩
  once := fun _ => Nat.zero_le _
  given := fun _ => .inl rfl

/-- Registering adds a waiter that nothing has been delivered to. -/
theorem Ledger.registered {d' : Desk} (h : Ledger d delivered given)
    (table : d.exchanges.register w.id = .ok (w, d'.exchanges)) (live : d'.live.Perm (d.live ++ [w])) :
    Ledger d' delivered given := by
  obtain ⟨hticket, hnext, hdecided⟩ := Exchanges.register_eq_ok table
  have hslot (t : Nat) : d'.exchanges.slot t = d.exchanges.slot t := by
    unfold Exchanges.slot
    rw [hdecided]
  have hfresh := h.fresh w (by omega)
  refine ⟨(h.serves.register table).of_perm live, ?_, ?_, ?_, h.once, h.given⟩
  · intro v hv
    rw [hslot]
    rcases List.mem_append.mp (live.mem_iff.mp hv) with hv | hv
    · exact h.slot v hv
    · rw [List.mem_singleton.mp hv, hfresh.1]
      exact h.serves.slot_of_fresh (by omega)
  · intro v hv
    rcases List.mem_append.mp (live.mem_iff.mp hv) with hv | hv
    · exact h.waiting v hv
    · rw [List.mem_singleton.mp hv, hfresh.2]
  · intro v hv
    exact h.fresh v (by omega)

/-- Deciding puts a first result into the slots that it reaches, and nothing into the others. -/
theorem Ledger.decided {d' : Desk} {p : Waiter → Prop} {r : Outcome} {new : Waiter → List Outcome}
    (h : Ledger d delivered given)
    (table : Exchanges.Decides d.live d.exchanges d'.exchanges p r) (live : d'.live = d.live)
    (hit : ∀ w ∈ d.exchanges.pending, p w → new w = [r])
    (other : ∀ w, ¬ (w ∈ d.exchanges.pending ∧ p w) → new w = []) :
    Ledger d' (fun w => delivered w ++ new w) given := by
  have hempty (w : Waiter) (hw : w ∈ d.exchanges.pending) : delivered w = [] :=
    h.delivered_of_undecided (h.serves.pending_live w hw) (h.undecided_of_pending hw)
  refine ⟨?_, ?_, ?_, ?_, ?_, ?_⟩
  · rw [live]
    exact h.serves.of_decides table
  · intro w hw
    rw [live] at hw
    by_cases hp : w ∈ d.exchanges.pending ∧ p w
    · rw [table.slot_hit w hp.1 hp.2, hit w hp.1 hp.2, h.slot w hw]
    · rw [table.slot_other w hw hp, other w hp, List.append_nil, h.slot w hw]
  · rw [live]
    exact h.waiting
  · intro w hw
    rw [table.nextTicket] at hw
    have hp : ¬ (w ∈ d.exchanges.pending ∧ p w) := by
      intro hp
      have hlt := h.serves.ticket_lt w (h.serves.pending_live w hp.1)
      omega
    obtain ⟨hd, hg⟩ := h.fresh w hw
    exact ⟨by rw [hd, other w hp, List.append_nil], hg⟩
  · intro w
    by_cases hp : w ∈ d.exchanges.pending ∧ p w
    · rw [hempty w hp.1, hit w hp.1 hp.2]
      exact Nat.le_refl _
    · rw [other w hp, List.append_nil]
      exact h.once w
  · intro w
    by_cases hp : w ∈ d.exchanges.pending ∧ p w
    · exact .inl (h.waiting w (h.serves.pending_live w hp.1))
    · rw [other w hp, List.append_nil]
      exact h.given w

/-- A waiter that goes has had nothing given back before; what it gets now is its result, or none
was there. -/
theorem Ledger.released {d' : Desk} {new : Waiter → List Outcome} (h : Ledger d delivered given)
    (mem : w ∈ d.live) (table : d'.exchanges = d.exchanges.release w) (sub : d'.live.Sublist d.live)
    (live : ∀ v, v ∈ d'.live ↔ v ∈ d.live ∧ v ≠ w)
    (hnew : ∀ v, new v = [] ∨ v = w ∧ ∃ r, new v = [r] ∧
      (d.exchanges.Decided w r ∨ d.exchanges.Undecided w ∧ GivesUp r)) :
    Ledger d' delivered (fun v => given v ++ new v) := by
  have hother (v : Waiter) (hne : v ≠ w) : new v = [] :=
    (hnew v).resolve_right fun hv => hne hv.1
  refine ⟨?_, ?_, ?_, ?_, h.once, ?_⟩
  · rw [table]
    exact h.serves.release mem sub live
  · intro v hv
    obtain ⟨hl, hne⟩ := (live v).mp hv
    have ht : v.ticket ≠ w.ticket := fun ht => hne (h.serves.eq_of_ticket hl mem ht)
    rw [table, Exchanges.slot_release ht, h.slot v hl]
  · intro v hv
    obtain ⟨hl, hne⟩ := (live v).mp hv
    rw [h.waiting v hl, hother v hne, List.append_nil]
  · intro v hv
    rw [table] at hv
    have hne : v ≠ w := by
      rintro rfl
      exact Nat.not_lt.mpr hv (h.serves.ticket_lt v mem)
    obtain ⟨hd, hg⟩ := h.fresh v hv
    exact ⟨hd, by rw [hg, hother v hne, List.append_nil]⟩
  · intro v
    rcases hnew v with hv | ⟨rfl, r, hr, hcase⟩
    · rw [hv, List.append_nil]
      exact h.given v
    · refine .inr ⟨r, by rw [h.waiting v mem, hr, List.nil_append], ?_⟩
      rcases hcase with hd | ⟨hu, hgives⟩
      · exact .inl (h.delivered_of_decided mem hd)
      · exact .inr ⟨h.delivered_of_undecided mem hu, hgives⟩

theorem Ledger.act (h : Ledger d delivered given) (a : Action) :
    Ledger (d.act a) (fun w => delivered w ++ d.delivered w a) (fun w => given w ++ d.given w a) := by
  have hnothing (f g : Waiter → List Outcome) (hg : ∀ w, g w = []) : (fun w => f w ++ g w) = f := by
    funext w
    rw [hg, List.append_nil]
  cases effect h.serves a with
  | kept table live hd hg =>
    rw [hnothing delivered _ hd, hnothing given _ hg]
    refine ⟨?_, ?_, ?_, ?_, h.once, h.given⟩
    · rw [table]
      exact h.serves.of_perm live
    · intro w hw
      rw [table]
      exact h.slot w (live.mem_iff.mp hw)
    · exact fun w hw => h.waiting w (live.mem_iff.mp hw)
    · rw [table]
      exact h.fresh
  | registered w action table live hd hg =>
    rw [hnothing delivered _ hd, hnothing given _ hg]
    exact h.registered table live
  | decided p r table live hit other hg =>
    rw [hnothing given _ hg]
    exact h.decided table live hit other
  | released w mem table sub live hd hg =>
    rw [hnothing delivered _ hd]
    exact h.released mem table sub live hg

theorem ledger (timer : Timer) (actions : List Action) :
    Ledger (after timer actions) (fun w => deliveries timer w actions)
      (fun w => endings timer w actions) := by
  induction actions using List.reverseRecOn with
  | nil => exact ledger_empty
  | append_singleton actions a ih =>
    simp only [after_concat, deliveries_concat, endings_concat]
    exact ih.act a

end Coap.Desk

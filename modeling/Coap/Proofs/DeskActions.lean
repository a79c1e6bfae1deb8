import Coap.Exchange.Desk
import Coap.Proofs.ExchangeTable

/-! What each thing that may happen at a desk does to the table of exchanges, to the live waiters
and to their results. -/
namespace Coap.Desk

/-- What may happen at a desk, in any order. -/
inductive Action
  | register (id : UInt16)
  | complete (m : Message)
  | cancel (id : UInt16)
  | failAll (e : ClientError)
  | wait (ticket limit : Nat) (token : Option String)
  | fire (token : String)
  | advance (span : Nat)
  | drop (ticket : Nat)
  | abort (ticket : Nat)
  | ask (ticket : Nat)

def act (d : Desk) : Action → Desk
  | .register id =>
    match d.register id with
    | .ok (_, d') => d'
    | .error _ => d
  | .complete m => (d.complete m).2
  | .cancel id => (d.cancel id).2
  | .failAll e => d.failAll e
  | .wait ticket limit token => d.wait ticket limit token
  | .fire token => d.fire token
  | .advance span => d.advance span
  | .drop ticket => d.drop ticket
  | .abort ticket => d.abort ticket
  | .ask ticket => (d.ask ticket).2

/-- The waiters that have been handed out and are neither dropped nor used up. -/
def live (d : Desk) : List Waiter := d.idle ++ d.waits.map Wait.waiter

/-- What an action puts into a waiter's slot. -/
def delivered (d : Desk) (w : Waiter) : Action → List Outcome
  | .complete m => if w ∈ d.exchanges.pending ∧ w.id = m.id then [.ok m] else []
  | .cancel id => if w ∈ d.exchanges.pending ∧ w.id = id then [.error .cancelled] else []
  | .failAll e => if w ∈ d.exchanges.pending then [.error e] else []
  | _ => []

/-- What an action gives back from a waiter's wait. -/
def given (d : Desk) (w : Waiter) : Action → List Outcome
  | .ask ticket =>
    match (d.ask ticket).1 with
    | some (v, outcome) => if v = w then [outcome] else []
    | none => []
  | _ => []

/-- What a wait ends with when it gives up. -/
def GivesUp (r : Outcome) : Prop := r = .error .cancelled ∨ r = .error .timedOut

/-- All that an action can do. It does one of four things: it leaves the table, hands out a waiter,
decides exchanges, or lets one live waiter go. Only a wait that ends gives anything back. -/
inductive Effect (d : Desk) (a : Action) : Prop
  | kept (table : (d.act a).exchanges = d.exchanges) (live : (d.act a).live.Perm d.live)
      (delivered : ∀ w, d.delivered w a = []) (given : ∀ w, d.given w a = [])
  | registered (w : Waiter) (action : a = .register w.id)
      (table : d.exchanges.register w.id = .ok (w, (d.act a).exchanges))
      (live : (d.act a).live.Perm (d.live ++ [w])) (delivered : ∀ w, d.delivered w a = [])
      (given : ∀ w, d.given w a = [])
  | decided (p : Waiter → Prop) (r : Outcome)
      (table : Exchanges.Decides d.live d.exchanges (d.act a).exchanges p r)
      (live : (d.act a).live = d.live)
      (hit : ∀ w ∈ d.exchanges.pending, p w → d.delivered w a = [r])
      (other : ∀ w, ¬ (w ∈ d.exchanges.pending ∧ p w) → d.delivered w a = [])
      (given : ∀ w, d.given w a = [])
  | released (w : Waiter) (mem : w ∈ d.live) (table : (d.act a).exchanges = d.exchanges.release w)
      (sub : (d.act a).live.Sublist d.live) (live : ∀ v, v ∈ (d.act a).live ↔ v ∈ d.live ∧ v ≠ w)
      (delivered : ∀ w, d.delivered w a = [])
      (given : ∀ v, d.given v a = [] ∨ v = w ∧ ∃ r, d.given v a = [r] ∧
        (d.exchanges.Decided w r ∨ d.exchanges.Undecided w ∧ GivesUp r))

variable {d : Desk}

theorem waiter_mem_live {v : Wait} (h : v ∈ d.waits) : v.waiter ∈ d.live :=
  List.mem_append_right _ (List.mem_map.mpr ⟨v, h, rfl⟩)

theorem idle_mem_live {w : Waiter} (h : w ∈ d.idle) : w ∈ d.live := List.mem_append_left _ h

theorem live_nodup (h : d.exchanges.Serves d.live) : d.live.Nodup := List.Nodup.of_map _ h.tickets

/-- No two waits have the same ticket. -/
theorem find?_wait (h : d.exchanges.Serves d.live) {v : Wait} (hv : v ∈ d.waits) :
    (d.waits.find? fun u => u.waiter.ticket == v.waiter.ticket) = some v := by
  have hnodup : (d.waits.map fun u => u.waiter.ticket).Nodup := by
    have hsub : (d.waits.map Wait.waiter).Sublist d.live := List.sublist_append_right _ _
    have hmap := h.tickets.sublist (hsub.map Waiter.ticket)
    rwa [List.map_map] at hmap
  exact Exchanges.find?_of_key hnodup hv

/-- No two idle waiters have the same ticket. -/
theorem find?_idle (h : d.exchanges.Serves d.live) {w : Waiter} (hw : w ∈ d.idle) :
    (d.idle.find? fun v => v.ticket == w.ticket) = some w := by
  have hsub : d.idle.Sublist d.live := List.sublist_append_left _ _
  exact Exchanges.find?_of_key (h.tickets.sublist (hsub.map Waiter.ticket)) hw

/-- The desk when a wait is over, and its waiter used up. -/
def without (d : Desk) (v : Wait) : Desk :=
  { d with
    waits := d.waits.filter fun u => u.waiter.ticket != v.waiter.ticket
    exchanges := d.exchanges.release v.waiter }

/-- The end of a wait leaves all live waiters but its own. -/
theorem live_without (h : d.exchanges.Serves d.live) {v : Wait} (hv : v ∈ d.waits) (w : Waiter) :
    w ∈ (d.without v).live ↔ w ∈ d.live ∧ w ≠ v.waiter := by
  constructor
  · intro hw
    rcases List.mem_append.mp hw with hw | hw
    · -- An idle waiter is not one that somebody waits with.
      refine ⟨idle_mem_live hw, ?_⟩
      rintro rfl
      have hdisj := (List.nodup_append.mp (live_nodup h)).2.2
      exact hdisj _ hw _ (List.mem_map.mpr ⟨v, hv, rfl⟩) rfl
    · obtain ⟨u, hu, rfl⟩ := List.mem_map.mp hw
      have hf := List.mem_filter.mp hu
      refine ⟨waiter_mem_live hf.1, ?_⟩
      intro he
      have hne := hf.2
      rw [he] at hne
      simp at hne
  · rintro ⟨hw, hne⟩
    rcases List.mem_append.mp hw with hw | hw
    · exact List.mem_append_left _ hw
    · obtain ⟨u, hu, rfl⟩ := List.mem_map.mp hw
      have hticket : u.waiter.ticket ≠ v.waiter.ticket := fun ht =>
        hne (h.eq_of_ticket (waiter_mem_live hu) (waiter_mem_live hv) ht)
      have hkept : u ∈ (d.without v).waits := List.mem_filter.mpr ⟨hu, by simpa using hticket⟩
      exact List.mem_append_right _ (List.mem_map.mpr ⟨u, hkept, rfl⟩)

/-! What each action can make of a desk. -/

theorem register_cases (d : Desk) (id : UInt16) :
    d.act (.register id) = d ∨ ∃ w x, w.id = id ∧ d.exchanges.register id = .ok (w, x) ∧
      d.act (.register id) = { d with exchanges := x, idle := d.idle ++ [w] } := by
  by_cases hid : id ∈ d.exchanges.ids
  · exact .inl (by simp [act, register, Exchanges.register_of_mem_ids hid, Except.map])
  · have hr := Exchanges.register_of_ids hid
    exact .inr ⟨_, _, rfl, hr, by simp [act, register, hr, Except.map]⟩

theorem wait_cases (d : Desk) (ticket limit : Nat) (token : Option String) :
    d.act (.wait ticket limit token) = d ∨ ∃ w ∈ d.idle, d.act (.wait ticket limit token) = { d with
      idle := d.idle.erase w
      waits := d.waits ++ [{ waiter := w, deadline := d.timer.wake d.clock limit, token }] } := by
  cases hf : d.idle.find? fun w => w.ticket == ticket with
  | none => exact .inl (by simp [act, wait, hf])
  | some w => exact .inr ⟨w, List.mem_of_find?_eq_some hf, by simp [act, wait, hf]⟩

theorem drop_cases (d : Desk) (ticket : Nat) :
    d.act (.drop ticket) = d ∨ ∃ w ∈ d.idle, d.act (.drop ticket) = { d with
      idle := d.idle.erase w
      exchanges := d.exchanges.release w } := by
  cases hf : d.idle.find? fun w => w.ticket == ticket with
  | none => exact .inl (by simp [act, drop, hf])
  | some w => exact .inr ⟨w, List.mem_of_find?_eq_some hf, by simp [act, drop, hf]⟩

theorem abort_cases (d : Desk) (ticket : Nat) :
    d.act (.abort ticket) = d ∨ ∃ v ∈ d.waits, d.act (.abort ticket) = d.without v := by
  cases hf : d.waits.find? fun v => v.waiter.ticket == ticket with
  | none => exact .inl (by simp [act, abort, hf])
  | some v =>
    have ht : v.waiter.ticket = ticket := by simpa using List.find?_some hf
    exact .inr ⟨v, List.mem_of_find?_eq_some hf, by simp [act, abort, hf, without, ht]⟩

/-- What asking a wait gives: a result that is there, else a cancellation or the end of the time
allowed. -/
theorem ask_wait (h : d.exchanges.Serves d.live) {v : Wait} (hv : v ∈ d.waits) :
    (∃ r, d.ask v.waiter.ticket = (some (v.waiter, r), d.without v) ∧
      (d.exchanges.Decided v.waiter r ∨ d.exchanges.Undecided v.waiter ∧
        (r = .error .cancelled ∨ r = .error .timedOut ∧ v.deadline ≤ d.clock))) ∨
    d.exchanges.Undecided v.waiter ∧ d.ask v.waiter.ticket = (none, d) := by
  have hfind := find?_wait h hv
  rcases h.either v.waiter (waiter_mem_live hv) with hu | ⟨r, hr⟩
  · have hfetch := Exchanges.fetch_of_undecided hu (d.isCancelled v) (decide (v.deadline ≤ d.clock))
    by_cases hc : d.isCancelled v = true
    · rw [if_pos hc] at hfetch
      exact .inl ⟨.error .cancelled, by simp [ask, hfind, hfetch, without], .inr ⟨hu, .inl rfl⟩⟩
    rw [if_neg hc] at hfetch
    by_cases he : v.deadline ≤ d.clock
    · rw [if_pos (decide_eq_true he)] at hfetch
      exact .inl ⟨.error .timedOut, by simp [ask, hfind, hfetch, without], .inr ⟨hu, .inr ⟨rfl, he⟩⟩⟩
    · rw [if_neg (by simpa using he)] at hfetch
      exact .inr ⟨hu, by simp [ask, hfind, hfetch]⟩
  · have hfetch := Exchanges.fetch_of_decided hr (d.isCancelled v) (decide (v.deadline ≤ d.clock))
    exact .inl ⟨r, by simp [ask, hfind, hfetch, without], .inl hr⟩

theorem ask_cases (h : d.exchanges.Serves d.live) (ticket : Nat) :
    d.ask ticket = (none, d) ∨ ∃ v ∈ d.waits, ∃ r, d.ask ticket = (some (v.waiter, r), d.without v) ∧
      (d.exchanges.Decided v.waiter r ∨ d.exchanges.Undecided v.waiter ∧ GivesUp r) := by
  cases hf : d.waits.find? fun v => v.waiter.ticket == ticket with
  | none => exact .inl (by simp [ask, hf])
  | some v =>
    have hv : v ∈ d.waits := List.mem_of_find?_eq_some hf
    have ht : v.waiter.ticket = ticket := by simpa using List.find?_some hf
    subst ht
    rcases ask_wait h hv with ⟨r, hask, hr⟩ | ⟨-, hask⟩
    · refine .inr ⟨v, hv, r, hask, hr.imp_right ?_⟩
      exact And.imp_right (Or.imp_right And.left)
    · exact .inl hask

/-! The effect of each action. -/

theorem effect_of_same {a : Action} (h : d.act a = d) (hd : ∀ w, d.delivered w a = [])
    (hg : ∀ w, d.given w a = []) : Effect d a :=
  .kept (by rw [h]) (by rw [h]) hd hg

theorem effect_of_decides {a : Action} {p : Waiter → Prop} [DecidablePred p] {r : Outcome}
    (table : Exchanges.Decides d.live d.exchanges (d.act a).exchanges p r)
    (live : (d.act a).live = d.live)
    (hd : ∀ w, d.delivered w a = if w ∈ d.exchanges.pending ∧ p w then [r] else [])
    (hg : ∀ w, d.given w a = []) : Effect d a := by
  refine .decided p r table live ?_ ?_ hg
  · intro w hw hp
    rw [hd, if_pos ⟨hw, hp⟩]
  · intro w hno
    rw [hd, if_neg hno]

theorem effect_of_without (h : d.exchanges.Serves d.live) {v : Wait} (hv : v ∈ d.waits) {a : Action}
    (hact : d.act a = d.without v) (hd : ∀ w, d.delivered w a = [])
    (hg : ∀ w, d.given w a = [] ∨ w = v.waiter ∧ ∃ r, d.given w a = [r] ∧
      (d.exchanges.Decided v.waiter r ∨ d.exchanges.Undecided v.waiter ∧ GivesUp r)) :
    Effect d a := by
  have hsub : (d.without v).live.Sublist d.live :=
    (List.Sublist.refl _).append (List.filter_sublist.map _)
  refine .released v.waiter (waiter_mem_live hv) (by rw [hact]; rfl) (by rw [hact]; exact hsub) ?_ hd hg
  rw [hact]
  exact live_without h hv

theorem effect_register (d : Desk) (id : UInt16) : Effect d (.register id) := by
  rcases d.register_cases id with hact | ⟨w, x, rfl, hr, hact⟩
  · exact effect_of_same hact (fun _ => rfl) fun _ => rfl
  · refine .registered w rfl (by rw [hact, hr]) ?_ (fun _ => rfl) fun _ => rfl
    rw [hact]
    unfold live
    simp only [List.append_assoc]
    exact List.Perm.append_left _ List.perm_append_comm

theorem effect_wait (d : Desk) (ticket limit : Nat) (token : Option String) :
    Effect d (.wait ticket limit token) := by
  rcases d.wait_cases ticket limit token with hact | ⟨w, hidle, hact⟩
  · exact effect_of_same hact (fun _ => rfl) fun _ => rfl
  · -- The waiter moves from the idle ones to the waits, so that all stay live.
    refine .kept (by rw [hact]) ?_ (fun _ => rfl) fun _ => rfl
    rw [hact]
    have hw : d.idle.Perm (w :: d.idle.erase w) := List.perm_cons_erase hidle
    have hlast : (d.idle.erase w ++ (d.waits.map Wait.waiter ++ [w])).Perm
        (w :: (d.idle.erase w ++ d.waits.map Wait.waiter)) := by
      rw [← List.append_assoc]
      exact List.perm_append_singleton _ _
    unfold live
    rw [List.map_append]
    exact hlast.trans (hw.symm.append_right _)

theorem effect_drop (h : d.exchanges.Serves d.live) (ticket : Nat) : Effect d (.drop ticket) := by
  rcases d.drop_cases ticket with hact | ⟨w, hw, hact⟩
  · exact effect_of_same hact (fun _ => rfl) fun _ => rfl
  · have hlive : (d.act (.drop ticket)).live = d.live.erase w := by
      rw [hact]
      exact (List.erase_append_left _ hw).symm
    refine .released w (idle_mem_live hw) (by rw [hact]) ?_ ?_ (fun _ => rfl) fun _ => .inl rfl
    · rw [hlive]
      exact List.erase_sublist
    · intro v
      rw [hlive, (live_nodup h).mem_erase_iff, and_comm]

theorem effect_abort (h : d.exchanges.Serves d.live) (ticket : Nat) : Effect d (.abort ticket) := by
  rcases d.abort_cases ticket with hact | ⟨v, hv, hact⟩
  · exact effect_of_same hact (fun _ => rfl) fun _ => rfl
  · exact effect_of_without h hv hact (fun _ => rfl) fun _ => .inl rfl

theorem effect_ask (h : d.exchanges.Serves d.live) (ticket : Nat) : Effect d (.ask ticket) := by
  rcases ask_cases h ticket with hask | ⟨v, hv, r, hask, hr⟩
  · refine effect_of_same (congrArg Prod.snd hask) (fun _ => rfl) ?_
    intro w
    simp [given, hask]
  · refine effect_of_without h hv (congrArg Prod.snd hask) (fun _ => rfl) ?_
    intro w
    have hgiven : d.given w (.ask ticket) = if v.waiter = w then [r] else [] := by
      simp [given, hask]
    by_cases hw : v.waiter = w
    · exact .inr ⟨hw.symm, r, by rw [hgiven, if_pos hw], hr⟩
    · exact .inl (by rw [hgiven, if_neg hw])

theorem effect (h : d.exchanges.Serves d.live) (a : Action) : Effect d a := by
  have htable (a : Action) (ht : (d.act a).exchanges = d.exchanges) (hl : (d.act a).live = d.live)
      (hd : ∀ w, d.delivered w a = []) (hg : ∀ w, d.given w a = []) : Effect d a :=
    .kept ht (by rw [hl]) hd hg
  cases a with
  | register id => exact effect_register d id
  | complete m =>
    exact effect_of_decides (h.decides_resolve m.id (.ok m)) rfl (fun _ => rfl) fun _ => rfl
  | cancel id =>
    exact effect_of_decides (h.decides_resolve id (.error .cancelled)) rfl (fun _ => rfl) fun _ => rfl
  | failAll e =>
    refine effect_of_decides (h.decides_failAll e) rfl ?_ fun _ => rfl
    intro w
    simp [delivered]
  | wait ticket limit token => exact effect_wait d ticket limit token
  | fire token => exact htable _ rfl rfl (fun _ => rfl) fun _ => rfl
  | advance span => exact htable _ rfl rfl (fun _ => rfl) fun _ => rfl
  | drop ticket => exact effect_drop h ticket
  | abort ticket => exact effect_abort h ticket
  | ask ticket => exact effect_ask h ticket

/-- Whatever happens, the table serves exactly the live waiters. -/
theorem serves_act (h : d.exchanges.Serves d.live) (a : Action) :
    (d.act a).exchanges.Serves (d.act a).live := by
  cases effect h a with
  | kept table live =>
    rw [table]
    exact h.of_perm live
  | registered w action table live => exact (h.register table).of_perm live
  | decided p r table live =>
    rw [live]
    exact h.of_decides table
  | released w mem table sub live =>
    rw [table]
    exact h.release mem sub live

end Coap.Desk

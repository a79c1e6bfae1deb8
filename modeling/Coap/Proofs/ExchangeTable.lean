import Coap.Exchange.Table
import Mathlib.Data.List.Nodup

/-! The table of exchanges while some waiters are live: each of them either has its entry and no
result, or one result and no entry. Every operation of the table keeps that up. -/
namespace Coap.Exchanges

/-- Where no two elements have the same key, each is found by its own. -/
theorem find?_of_key {α κ : Type} [BEq κ] [LawfulBEq κ] {key : α → κ} {items : List α} {a : α}
    (hkeys : (items.map key).Nodup) (ha : a ∈ items) :
    (items.find? fun b => key b == key a) = some a := by
  cases hf : items.find? fun b => key b == key a with
  | none =>
    have hno := List.find?_eq_none.mp hf a ha
    simp at hno
  | some b =>
    have hb : b ∈ items := List.mem_of_find?_eq_some hf
    have hkey : key b = key a := by simpa using List.find?_some hf
    rw [List.inj_on_of_nodup_map hkeys hb ha hkey]

/-- The results that are kept for a ticket. -/
def slot (x : Exchanges) (ticket : Nat) : List Outcome :=
  (x.decided.filter fun d => d.1 == ticket).map Prod.snd

/-- The waiter's own entry is in the table, and it has no result yet. -/
def Undecided (x : Exchanges) (w : Waiter) : Prop := w ∈ x.pending ∧ x.slot w.ticket = []

/-- The waiter's own entry is gone, and exactly one result waits for it. -/
def Decided (x : Exchanges) (w : Waiter) (r : Outcome) : Prop :=
  w ∉ x.pending ∧ x.slot w.ticket = [r]

/-- The table serves exactly the live waiters. -/
structure Serves (x : Exchanges) (live : List Waiter) : Prop where
  ids : x.ids.Nodup
  tickets : (live.map Waiter.ticket).Nodup
  ticket_lt : ∀ w ∈ live, w.ticket < x.nextTicket
  pending_live : ∀ w ∈ x.pending, w ∈ live
  decided_live : ∀ d ∈ x.decided, ∃ w ∈ live, w.ticket = d.1
  either : ∀ w ∈ live, x.Undecided w ∨ ∃ r, x.Decided w r

variable {x : Exchanges} {live : List Waiter} {w v : Waiter}

theorem serves_empty : Serves {} [] where
  ids := List.nodup_nil
  tickets := List.nodup_nil
  ticket_lt := by simp
  pending_live := by simp
  decided_live := by simp
  either := by simp

theorem Serves.of_perm {live' : List Waiter} (h : x.Serves live) (hp : live'.Perm live) :
    x.Serves live' where
  ids := h.ids
  tickets := (hp.map Waiter.ticket).nodup_iff.mpr h.tickets
  ticket_lt := fun w hw => h.ticket_lt w (hp.mem_iff.mp hw)
  pending_live := fun w hw => hp.mem_iff.mpr (h.pending_live w hw)
  decided_live := by
    intro d hd
    obtain ⟨w, hw, ht⟩ := h.decided_live d hd
    exact ⟨w, hp.mem_iff.mpr hw, ht⟩
  either := fun w hw => h.either w (hp.mem_iff.mp hw)

theorem Serves.eq_of_ticket (h : x.Serves live) (hw : w ∈ live) (hv : v ∈ live)
    (ht : w.ticket = v.ticket) : w = v :=
  List.inj_on_of_nodup_map h.tickets hw hv ht

theorem Serves.eq_of_id (h : x.Serves live) (hw : w ∈ x.pending) (hv : v ∈ x.pending)
    (hi : w.id = v.id) : w = v :=
  List.inj_on_of_nodup_map h.ids hw hv hi

theorem Serves.pending_nodup (h : x.Serves live) : x.pending.Nodup :=
  List.Nodup.of_map _ h.ids

/-- A ticket that has not been handed out has no results. -/
theorem Serves.slot_of_fresh {ticket : Nat} (h : x.Serves live) (ht : x.nextTicket ≤ ticket) :
    x.slot ticket = [] := by
  have hnone : (x.decided.filter fun d => d.1 == ticket) = [] := by
    apply List.filter_eq_nil_iff.mpr
    intro d hd
    obtain ⟨v, hv, hvd⟩ := h.decided_live d hd
    have hlt := h.ticket_lt v hv
    have hne : d.1 ≠ ticket := by omega
    simpa using hne
  unfold slot
  rw [hnone, List.map_nil]

theorem result?_eq_head? (x : Exchanges) (w : Waiter) : x.result? w = (x.slot w.ticket).head? := by
  unfold result? slot
  rw [List.head?_map, List.head?_filter]

theorem register_of_ids {id : UInt16} (h : id ∉ x.ids) :
    x.register id = .ok (⟨id, x.nextTicket⟩,
      { x with pending := x.pending ++ [⟨id, x.nextTicket⟩], nextTicket := x.nextTicket + 1 }) := by
  have hfree : x.isPending id = false := by
    unfold ids at h
    simpa [isPending] using h
  simp [register, hfree]

theorem register_of_mem_ids {id : UInt16} (h : id ∈ x.ids) : x.register id = .error { id } := by
  have hused : x.isPending id = true := by
    unfold ids at h
    simpa [isPending] using h
  simp [register, hused]

/-- Only a free id is registered, under the next ticket. -/
theorem register_inv {y : Exchanges} {id : UInt16} (hr : x.register id = .ok (w, y)) :
    id ∉ x.ids ∧ w = ⟨id, x.nextTicket⟩ ∧
      y = { x with pending := x.pending ++ [⟨id, x.nextTicket⟩], nextTicket := x.nextTicket + 1 } := by
  by_cases hid : id ∈ x.ids
  · rw [register_of_mem_ids hid] at hr
    cases hr
  · rw [register_of_ids hid] at hr
    cases hr
    exact ⟨hid, rfl, rfl⟩

/-- A new waiter has the next ticket, and nothing is decided. -/
theorem register_eq_ok {y : Exchanges} {id : UInt16} (hr : x.register id = .ok (w, y)) :
    w.ticket = x.nextTicket ∧ y.nextTicket = x.nextTicket + 1 ∧ y.decided = x.decided := by
  obtain ⟨-, rfl, rfl⟩ := register_inv hr
  exact ⟨rfl, rfl, rfl⟩

/-- Only a free id is registered, and its entry is the new waiter's. -/
theorem pending_register {y : Exchanges} {id : UInt16} (hr : x.register id = .ok (w, y)) :
    id ∉ x.ids ∧ y.pending = x.pending ++ [w] := by
  obtain ⟨hid, rfl, rfl⟩ := register_inv hr
  exact ⟨hid, rfl⟩

theorem Serves.register {y : Exchanges} {id : UInt16} (h : x.Serves live)
    (hr : x.register id = .ok (w, y)) : y.Serves (live ++ [w]) := by
  obtain ⟨hid, rfl, rfl⟩ := register_inv hr
  -- All live waiters have smaller tickets than the new one.
  have hold : ∀ v ∈ live, v ≠ ⟨id, x.nextTicket⟩ := by
    intro v hv he
    have hlt := h.ticket_lt v hv
    rw [he] at hlt
    exact Nat.lt_irrefl _ hlt
  refine ⟨?_, ?_, ?_, ?_, ?_, ?_⟩
  · unfold Exchanges.ids
    rw [List.map_append]
    exact List.Nodup.append h.ids (List.nodup_singleton _) (List.disjoint_singleton.mpr hid)
  · rw [List.map_append]
    refine List.Nodup.append h.tickets (List.nodup_singleton _) ?_
    intro t ht hnew
    obtain ⟨v, hv, rfl⟩ := List.mem_map.mp ht
    have hlt := h.ticket_lt v hv
    have heq : v.ticket = x.nextTicket := by simpa using hnew
    omega
  · intro v hv
    rcases List.mem_append.mp hv with hv | hv
    · exact Nat.lt_succ_of_lt (h.ticket_lt v hv)
    · rw [List.mem_singleton.mp hv]
      exact Nat.lt_succ_self _
  · intro v hv
    rcases List.mem_append.mp hv with hv | hv
    · exact List.mem_append_left _ (h.pending_live v hv)
    · exact List.mem_append_right _ hv
  · intro d hd
    obtain ⟨v, hv, ht⟩ := h.decided_live d hd
    exact ⟨v, List.mem_append_left _ hv, ht⟩
  · intro v hv
    rcases List.mem_append.mp hv with hv | hv
    · rcases h.either v hv with ⟨hp, hs⟩ | ⟨r, hp, hs⟩
      · exact .inl ⟨List.mem_append_left _ hp, hs⟩
      · refine .inr ⟨r, ?_, hs⟩
        simp [hp, hold v hv]
    · refine .inl ⟨List.mem_append_right _ hv, ?_⟩
      rw [List.mem_singleton.mp hv]
      exact h.slot_of_fresh (Nat.le_refl _)

/-! Deciding exchanges. -/

theorem resolve_of_not_mem {id : UInt16} (h : id ∉ x.ids) (r : Outcome) :
    x.resolve id r = (false, x) := by
  have hnone : (x.pending.find? fun w => w.id == id) = none := by
    apply List.find?_eq_none.mpr
    intro w hw hid
    exact h (List.mem_map.mpr ⟨w, hw, by simpa using hid⟩)
  simp [resolve, hnone]

theorem resolve_of_mem (h : x.ids.Nodup) (hw : w ∈ x.pending) (r : Outcome) :
    x.resolve w.id r = (true, { x with
      pending := x.pending.erase w, decided := x.decided ++ [(w.ticket, r)] }) := by
  have hfind : (x.pending.find? fun v => v.id == w.id) = some w := find?_of_key h hw
  simp [resolve, hfind]

/-- An exchange is found under an id exactly when that id is outstanding. -/
theorem resolve_found (x : Exchanges) (id : UInt16) (r : Outcome) :
    (x.resolve id r).1 = true ↔ id ∈ x.ids := by
  constructor
  · intro h
    by_contra hid
    rw [resolve_of_not_mem hid] at h
    cases h
  · intro h
    obtain ⟨w, hw, hid⟩ := List.mem_map.mp h
    unfold resolve
    cases hf : x.pending.find? fun v => v.id == id with
    | none =>
      have hno := List.find?_eq_none.mp hf w hw
      simp [hid] at hno
    | some v => rfl

/-- From the first table to the second, the outstanding exchanges that satisfy `p` have been
decided, all with the same result. -/
structure Decides (live : List Waiter) (x y : Exchanges) (p : Waiter → Prop) (r : Outcome) : Prop where
  nextTicket : y.nextTicket = x.nextTicket
  ids : y.ids.Sublist x.ids
  pending : ∀ w, w ∈ y.pending ↔ w ∈ x.pending ∧ ¬ p w
  decided : ∀ d ∈ y.decided, d ∈ x.decided ∨ ∃ w ∈ x.pending, w.ticket = d.1
  slot_hit : ∀ w ∈ x.pending, p w → y.slot w.ticket = x.slot w.ticket ++ [r]
  slot_other : ∀ w ∈ live, ¬ (w ∈ x.pending ∧ p w) → y.slot w.ticket = x.slot w.ticket

variable {y z : Exchanges} {p q : Waiter → Prop} {r : Outcome}

theorem Decides.none (h : ∀ w ∈ x.pending, ¬ p w) : Decides live x x p r where
  nextTicket := rfl
  ids := List.Sublist.refl _
  pending := fun w => ⟨fun hw => ⟨hw, h w hw⟩, And.left⟩
  decided := fun _ hd => .inl hd
  slot_hit := fun w hw hp => absurd hp (h w hw)
  slot_other := fun _ _ _ => rfl

theorem Decides.trans (h : x.Serves live) (hxy : Decides live x y p r) (hyz : Decides live y z q r) :
    Decides live x z (fun w => p w ∨ q w) r where
  nextTicket := hyz.nextTicket.trans hxy.nextTicket
  ids := hyz.ids.trans hxy.ids
  pending := by
    intro w
    rw [hyz.pending, hxy.pending, not_or, and_assoc]
  decided := by
    intro d hd
    rcases hyz.decided d hd with hd | ⟨w, hw, ht⟩
    · exact hxy.decided d hd
    · exact .inr ⟨w, ((hxy.pending w).mp hw).1, ht⟩
  slot_hit := by
    intro w hw hpq
    -- An exchange that the first decision reaches is not there for the second one.
    by_cases hp : p w
    · have hgone : ¬ (w ∈ y.pending ∧ q w) := fun hy => ((hxy.pending w).mp hy.1).2 hp
      rw [hyz.slot_other w (h.pending_live w hw) hgone, hxy.slot_hit w hw hp]
    · have hq : q w := hpq.resolve_left hp
      have hstill : w ∈ y.pending := (hxy.pending w).mpr ⟨hw, hp⟩
      rw [hyz.slot_hit w hstill hq, hxy.slot_other w (h.pending_live w hw) fun hy => hp hy.2]
  slot_other := by
    intro w hw hpq
    have hx : ¬ (w ∈ x.pending ∧ p w) := fun hx => hpq ⟨hx.1, .inl hx.2⟩
    have hy : ¬ (w ∈ y.pending ∧ q w) := fun hy => hpq ⟨((hxy.pending w).mp hy.1).1, .inr hy.2⟩
    rw [hyz.slot_other w hw hy, hxy.slot_other w hw hx]

theorem Decides.congr (h : Decides live x y p r) (hpq : ∀ w ∈ x.pending, p w ↔ q w) :
    Decides live x y q r where
  nextTicket := h.nextTicket
  ids := h.ids
  pending := by
    intro w
    rw [h.pending]
    exact ⟨fun hw => ⟨hw.1, fun hq => hw.2 ((hpq w hw.1).mpr hq)⟩,
      fun hw => ⟨hw.1, fun hp => hw.2 ((hpq w hw.1).mp hp)⟩⟩
  decided := h.decided
  slot_hit := fun w hw hq => h.slot_hit w hw ((hpq w hw).mpr hq)
  slot_other := fun w hw hno => h.slot_other w hw fun hp => hno ⟨hp.1, (hpq w hp.1).mp hp.2⟩

/-- Deciding exchanges moves live waiters from the first situation to the second, and leaves the
others. -/
theorem Serves.of_decides (h : x.Serves live) (hd : Decides live x y p r) : y.Serves live where
  ids := h.ids.sublist hd.ids
  tickets := h.tickets
  ticket_lt := by
    rw [hd.nextTicket]
    exact h.ticket_lt
  pending_live := fun w hw => h.pending_live w ((hd.pending w).mp hw).1
  decided_live := by
    intro d hm
    rcases hd.decided d hm with hm | ⟨w, hw, ht⟩
    · exact h.decided_live d hm
    · exact ⟨w, h.pending_live w hw, ht⟩
  either := by
    intro w hw
    rcases h.either w hw with ⟨hp, hs⟩ | ⟨o, hp, hs⟩
    · by_cases hpw : p w
      · refine .inr ⟨r, fun hy => ((hd.pending w).mp hy).2 hpw, ?_⟩
        rw [hd.slot_hit w hp hpw, hs, List.nil_append]
      · refine .inl ⟨(hd.pending w).mpr ⟨hp, hpw⟩, ?_⟩
        rw [hd.slot_other w hw fun hx => hpw hx.2, hs]
    · refine .inr ⟨o, fun hy => hp ((hd.pending w).mp hy).1, ?_⟩
      rw [hd.slot_other w hw fun hx => hp hx.1, hs]

theorem Serves.decides_resolve (h : x.Serves live) (id : UInt16) (r : Outcome) :
    Decides live x (x.resolve id r).2 (fun w => w.id = id) r := by
  by_cases hid : id ∈ x.ids
  · obtain ⟨w, hw, rfl⟩ := List.mem_map.mp hid
    rw [resolve_of_mem h.ids hw]
    have hmem : ∀ v, v ∈ x.pending.erase w ↔ v ∈ x.pending ∧ ¬ v.id = w.id := by
      intro v
      rw [h.pending_nodup.mem_erase_iff]
      constructor
      · rintro ⟨hne, hv⟩
        exact ⟨hv, fun he => hne (h.eq_of_id hv hw he)⟩
      · rintro ⟨hv, hne⟩
        exact ⟨fun he => hne (by rw [he]), hv⟩
    refine ⟨rfl, ?_, hmem, ?_, ?_, ?_⟩
    · exact List.erase_sublist.map Waiter.id
    · intro d hd
      rcases List.mem_append.mp hd with hd | hd
      · exact .inl hd
      · exact .inr ⟨w, hw, by rw [List.mem_singleton.mp hd]⟩
    · intro v hv he
      rw [h.eq_of_id hv hw he]
      simp [slot]
    · intro v hv hno
      have hne : w.ticket ≠ v.ticket := by
        intro ht
        have he := h.eq_of_ticket (h.pending_live w hw) hv ht
        exact hno ⟨he ▸ hw, by rw [he]⟩
      simp [slot, hne]
  · rw [resolve_of_not_mem hid]
    exact .none fun w hw he => hid (List.mem_map.mpr ⟨w, hw, he⟩)

theorem Serves.decides_each (h : x.Serves live) (r : Outcome) (ids : List UInt16) :
    Decides live x (ids.foldl (fun x id => (x.resolve id r).2) x) (fun w => w.id ∈ ids) r := by
  induction ids generalizing x with
  | nil => exact .none fun w _ => List.not_mem_nil
  | cons id ids ih =>
    have hone := h.decides_resolve id r
    have hrest := ih (h.of_decides hone)
    rw [List.foldl_cons]
    refine (hone.trans h hrest).congr fun w _ => ?_
    rw [List.mem_cons]

theorem Serves.decides_failAll (h : x.Serves live) (e : ClientError) :
    Decides live x (x.failAll e) (fun _ => True) (.error e) := by
  refine (h.decides_each (.error e) x.ids).congr fun w hw => ?_
  exact ⟨fun _ => trivial, fun _ => List.mem_map.mpr ⟨w, hw, rfl⟩⟩

/-! Giving exchanges up, and fetching results. -/

theorem pending_release (x : Exchanges) (w v : Waiter) :
    v ∈ (x.release w).pending ↔ v ∈ x.pending ∧ v ≠ w := by
  simp [release]

theorem slot_release {ticket : Nat} (h : ticket ≠ w.ticket) :
    (x.release w).slot ticket = x.slot ticket := by
  unfold slot release
  rw [List.filter_filter]
  apply congrArg (List.map Prod.snd)
  apply List.filter_congr
  intro d _
  by_cases hd : d.1 = ticket
  · simp [hd, h]
  · simp [hd]

/-- A waiter that is released takes nothing of another one with it. -/
theorem Serves.release {live' : List Waiter} (h : x.Serves live) (hw : w ∈ live)
    (hsub : live'.Sublist live) (hmem : ∀ v, v ∈ live' ↔ v ∈ live ∧ v ≠ w) :
    (x.release w).Serves live' where
  ids := h.ids.sublist (List.filter_sublist.map Waiter.id)
  tickets := h.tickets.sublist (hsub.map Waiter.ticket)
  ticket_lt := fun v hv => h.ticket_lt v ((hmem v).mp hv).1
  pending_live := by
    intro v hv
    obtain ⟨hp, hne⟩ := (pending_release x w v).mp hv
    exact (hmem v).mpr ⟨h.pending_live v hp, hne⟩
  decided_live := by
    intro d hd
    have hm := List.mem_filter.mp hd
    obtain ⟨v, hv, ht⟩ := h.decided_live d hm.1
    refine ⟨v, (hmem v).mpr ⟨hv, ?_⟩, ht⟩
    intro he
    rw [he] at ht
    simp [ht] at hm
  either := by
    intro v hv
    obtain ⟨hl, hne⟩ := (hmem v).mp hv
    have ht : v.ticket ≠ w.ticket := fun ht => hne (h.eq_of_ticket hl hw ht)
    rcases h.either v hl with ⟨hp, hs⟩ | ⟨r, hp, hs⟩
    · exact .inl ⟨(pending_release x w v).mpr ⟨hp, hne⟩, by rw [slot_release ht, hs]⟩
    · exact .inr ⟨r, fun hv => hp ((pending_release x w v).mp hv).1, by rw [slot_release ht, hs]⟩

/-- A result that is there is what the waiter gets, whatever else has happened. -/
theorem fetch_of_decided (h : x.Decided w r) (cancelled expired : Bool) :
    x.fetch w cancelled expired = some (r, x.release w) := by
  have hr : x.result? w = some r := by
    rw [result?_eq_head?, h.2]
    rfl
  simp [fetch, hr]

theorem fetch_of_undecided (h : x.Undecided w) (cancelled expired : Bool) :
    x.fetch w cancelled expired =
      if cancelled then some (.error .cancelled, x.release w)
      else if expired then some (.error .timedOut, x.release w)
      else none := by
  have hr : x.result? w = none := by
    rw [result?_eq_head?, h.2]
    rfl
  simp [fetch, hr, h.1]

end Coap.Exchanges

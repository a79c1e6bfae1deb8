import Coap.Observe.Subscriptions

/-! The table of subscriptions: what is found in it after a change, and the serial number as a
second key of one token's entry. -/
namespace Coap

/-- Equality of tokens is decided by their bytes. -/
instance lawfulBEqByteArray : LawfulBEq ByteArray where
  eq_of_beq {a b} h := by
    have hdata : a.data = b.data := eq_of_beq (α := Array UInt8) h
    exact ByteArray.ext hdata
  rfl {a} := by
    have hdata : (a.data == a.data) = true := beq_self_eq_true a.data
    exact hdata

namespace Subscriptions

variable {s s' : Subscriptions} {token t : ByteArray} {serial : Nat} {e : Subscription}
  {m : Message} {f : Subscription → Subscription}

/-- Changes of an entry that keep both of its keys. -/
structure KeepsKeys (f : Subscription → Subscription) : Prop where
  token : ∀ e, (f e).token = e.token
  serial : ∀ e, (f e).serial = e.serial

theorem KeepsKeys.ite (hf : KeepsKeys f) (p : Subscription → Bool) :
    KeepsKeys fun e => if p e then f e else e where
  token := by
    intro e
    split
    · exact hf.token e
    · rfl
  serial := by
    intro e
    split
    · exact hf.serial e
    · rfl

theorem keepsKeys_accept (m : Message) : KeepsKeys fun e => e.accept m where
  token := by
    intro e
    unfold Subscription.accept
    repeat' split
    all_goals rfl
  serial := by
    intro e
    unfold Subscription.accept
    repeat' split
    all_goals rfl

theorem keepsKeys_seed (q : UInt32) : KeepsKeys fun e => e.seed q where
  token := by
    intro e
    unfold Subscription.seed
    split <;> rfl
  serial := by
    intro e
    unfold Subscription.seed
    split <;> rfl

theorem keepsKeys_queue (queue : List Message) : KeepsKeys fun e => { e with queue } :=
  ⟨fun _ => rfl, fun _ => rfl⟩

/-- A change of entries that keeps their tokens changes what is found, and not where. -/
theorem find?_entries_map (hf : KeepsKeys f) (entries : List Subscription) (token : ByteArray) :
    Subscriptions.find? ⟨entries.map f⟩ token = (Subscriptions.find? ⟨entries⟩ token).map f := by
  have hsame : ((fun e : Subscription => e.token == token) ∘ f) = fun e => e.token == token := by
    funext e
    simp [hf.token]
  unfold find?
  rw [List.find?_map, hsame]

theorem find?_modify (hf : KeepsKeys f) (s : Subscriptions) (t token : ByteArray) :
    (s.modify t f).find? token = (s.find? token).map fun e => if e.token == t then f e else e :=
  find?_entries_map (hf.ite _) s.entries token

theorem token_of_find? (h : s.find? token = some e) : e.token = token := by
  have hbeq := List.find?_some h
  exact eq_of_beq hbeq

theorem mem_of_find? (h : s.find? token = some e) : e ∈ s.entries :=
  List.mem_of_find?_eq_some h

theorem find?_modify_self (hf : KeepsKeys f) (h : s.find? token = some e) :
    (s.modify token f).find? token = some (f e) := by
  have hbeq : (e.token == token) = true := by
    rw [token_of_find? h]
    exact beq_self_eq_true token
  rw [find?_modify hf, h, Option.map_some, if_pos hbeq]

theorem find?_modify_ne (hf : KeepsKeys f) (h : s.find? token = some e) (ht : t ≠ token) :
    (s.modify t f).find? token = some e := by
  have hne : ¬ (e.token == t) = true := by
    rw [token_of_find? h]
    simpa using ht.symm
  rw [find?_modify hf, h, Option.map_some, if_neg hne]

theorem isActive_of_find? (h : s.find? token = some e) : s.isActive token = true := by
  unfold isActive
  rw [h]
  rfl

theorem find?_deregister_ne (h : s.find? token = some e) (ht : t ≠ token) :
    (s.deregister t).2.find? token = some e := by
  have hkeep : ∀ e : Subscription, e.token == token → (e.token != t) = true := by
    intro e he
    rw [eq_of_beq he]
    simpa using ht.symm
  unfold find? deregister
  rw [List.find?_filter]
  rw [← h]
  unfold find?
  congr 1
  funext e
  by_cases he : (e.token == token) = true
  · simp [he, hkeep e he]
  · simp [he]

/-- A registration adds one entry at the end. -/
theorem register_eq_ok (h : s.register token serial = .ok s') :
    s.find? token = none ∧ s' = { entries := s.entries ++ [{ token, serial }] } := by
  unfold register at h
  split at h
  · cases h
  · rename_i hactive
    cases h
    exact ⟨by simpa [isActive] using hactive, rfl⟩

theorem take_eq_some (h : s.take serial = some (m, s')) :
    ∃ rest, s' = { entries := s.entries.map fun e =>
      if e.serial == serial then { e with queue := rest } else e } := by
  unfold take at h
  split at h
  · cases h
  · split at h
    · cases h
    · cases h
      exact ⟨_, rfl⟩

/-! Which subscriptions are there after a change. -/

theorem isActive_iff : s.isActive token = true ↔ ∃ e ∈ s.entries, e.token = token := by
  unfold isActive find?
  rw [List.find?_isSome]
  simp only [beq_iff_eq]

theorem isActive_of_mem (h : e ∈ s.entries) : s.isActive e.token = true :=
  isActive_iff.mpr ⟨e, h, rfl⟩

theorem isActive_entries_map (hf : KeepsKeys f) (s : Subscriptions) (token : ByteArray) :
    Subscriptions.isActive ⟨s.entries.map f⟩ token = s.isActive token := by
  unfold isActive
  rw [find?_entries_map hf, Option.isSome_map]

theorem isActive_modify (hf : KeepsKeys f) (s : Subscriptions) (t token : ByteArray) :
    (s.modify t f).isActive token = s.isActive token := by
  unfold isActive
  rw [find?_modify hf, Option.isSome_map]

theorem isActive_deregister_iff : (s.deregister t).2.isActive token = true ↔
    s.isActive token = true ∧ token ≠ t := by
  rw [isActive_iff, isActive_iff]
  unfold deregister
  simp only [List.mem_filter, bne_iff_ne]
  constructor
  · rintro ⟨e, ⟨he, hne⟩, rfl⟩
    exact ⟨⟨e, he, rfl⟩, hne⟩
  · rintro ⟨⟨e, he, rfl⟩, hne⟩
    exact ⟨e, ⟨he, hne⟩, rfl⟩

theorem isActive_register_iff (h : s.register t serial = .ok s') : s'.isActive token = true ↔
    s.isActive token = true ∨ token = t := by
  obtain ⟨-, rfl⟩ := register_eq_ok h
  rw [isActive_iff, isActive_iff]
  constructor
  · rintro ⟨e, he, rfl⟩
    rcases List.mem_append.mp he with he | he
    · exact .inl ⟨e, he, rfl⟩
    · rw [List.mem_singleton.mp he]
      exact .inr rfl
  · rintro (⟨e, he, rfl⟩ | rfl)
    · exact ⟨e, List.mem_append_left _ he, rfl⟩
    · exact ⟨_, List.mem_append_right _ (List.mem_singleton_self _), rfl⟩

/-! The serial number as a second key. -/

/-- Whether a serial number is that of a token's entry, and of no other. -/
def Marks (token : ByteArray) (serial : Nat) (s : Subscriptions) : Prop :=
  ∀ e ∈ s.entries, e.serial = serial ↔ e.token = token

theorem Marks.map (h : s.Marks token serial) (hf : KeepsKeys f) :
    Subscriptions.Marks token serial ⟨s.entries.map f⟩ := by
  intro e he
  obtain ⟨e₀, he₀, rfl⟩ := List.mem_map.mp he
  rw [hf.serial, hf.token]
  exact h e₀ he₀

theorem Marks.modify (h : s.Marks token serial) (hf : KeepsKeys f) :
    (s.modify t f).Marks token serial :=
  h.map (hf.ite _)

theorem Marks.serial_eq (h : s.Marks token serial) (hfind : s.find? token = some e) :
    e.serial = serial := (h e (mem_of_find? hfind)).mpr (token_of_find? hfind)

/-- What is found by the serial number is what is found by the token. -/
theorem Marks.find?_serial (h : s.Marks token serial) :
    (s.entries.find? fun e => e.serial == serial) = s.find? token := by
  have hsame : ∀ e ∈ s.entries, (e.serial == serial) = (e.token == token) := by
    intro e he
    rw [Bool.eq_iff_iff, beq_iff_eq, beq_iff_eq]
    exact h e he
  unfold find?
  rw [← List.head?_filter, ← List.head?_filter, List.filter_congr hsame]

end Subscriptions

end Coap

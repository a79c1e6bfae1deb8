import Coap.Proofs.SubscriptionTable

/-! Freshness of notifications over whole runs. Notifications are counted without limit, and only
the place of the count on the circle of sequence numbers is sent. While no count is half the circle
or more away from the largest one before it, a subscription accepts the same notifications as one
that sees the counts themselves, however often the circle has been gone round. -/
namespace Coap

/-- The sequence number under which a count is sent: its place on the circle of 2 ^ 24. -/
def sequenceOf (n : Nat) : UInt32 := UInt32.ofNat (n % 16777216)

/-- Whether two counts are less than half the circle apart. -/
def Near (a b : Nat) : Prop := a < b + sequenceHalfRange ∧ b < a + sequenceHalfRange

instance (a b : Nat) : Decidable (Near a b) := inferInstanceAs (Decidable (_ ∧ _))

theorem sequenceOf_toNat (n : Nat) : (sequenceOf n).toNat = n % 16777216 := by
  unfold sequenceOf
  rw [UInt32.toNat_ofNat']
  apply Nat.mod_eq_of_lt
  omega

/-- Of two counts that are near each other, the comparison on the circle finds the larger one. -/
theorem isFresher_iff {last n : Nat} (h : Near last n) :
    isFresher (sequenceOf last) (sequenceOf n) = true ↔ last < n := by
  have hhalf : sequenceHalfRange = 8388608 := by decide
  obtain ⟨hbelow, habove⟩ := h
  unfold isFresher
  dsimp only
  rw [sequenceOf_toNat, sequenceOf_toNat]
  simp only [Bool.or_eq_true, Bool.and_eq_true, decide_eq_true_eq]
  rw [hhalf] at hbelow habove ⊢
  -- A count that is ahead is so by less than half the circle, on either side of the wrap.
  omega

namespace Subscriptions

/-- A call about other subscriptions than the one that is looked at. -/
inductive Elsewhere
  | register (token : ByteArray) (serial : Nat)
  | deregister (token : ByteArray)
  | handle (m : Message)
  | seed (token : ByteArray) (sequence : UInt32)
  | take (serial : Nat)

def Elsewhere.apply (s : Subscriptions) : Elsewhere → Subscriptions
  | .register token serial =>
    match s.register token serial with
    | .ok s' => s'
    | .error _ => s
  | .deregister token => (s.deregister token).2
  | .handle m => (s.tryHandle m).2
  | .seed token sequence => s.seed token sequence
  | .take serial =>
    match s.take serial with
    | some (_, s') => s'
    | none => s

def Elsewhere.Apart (token : ByteArray) (serial : Nat) : Elsewhere → Prop
  | .register t k => t ≠ token ∧ k ≠ serial
  | .deregister t => t ≠ token
  | .handle m => m.token ≠ token
  | .seed t _ => t ≠ token
  | .take k => k ≠ serial

/-- What may happen while a subscription is there. -/
inductive Happening
  /-- A notification arrives that carries the sequence number of its count. -/
  | numbered (n : Nat) (m : Message)
  /-- A notification arrives that carries no sequence number. -/
  | plain (m : Message)
  /-- The sequence number of a count is recorded as seen. -/
  | seeded (n : Nat)
  /-- The oldest waiting notification is taken for delivery. -/
  | taken
  | elsewhere (call : Elsewhere)

/-- The table, and what has been taken for delivery from the subscription that is looked at. -/
structure Watch where
  table : Subscriptions
  taken : List Message := []

def Watch.after (token : ByteArray) (serial : Nat) (w : Watch) : Happening → Watch
  | .numbered _ m | .plain m => { w with table := (w.table.tryHandle m).2 }
  | .seeded n => { w with table := w.table.seed token (sequenceOf n) }
  | .taken =>
    match w.table.take serial with
    | some (m, table) => { table, taken := w.taken ++ [m] }
    | none => w
  | .elsewhere call => { w with table := call.apply w.table }

/-- A subscriber that sees the counts: all that it has seen so far, and the notifications that it
has accepted, which are those with a count larger than all before it and those without one. -/
structure Counter where
  seen : List Nat := []
  accepted : List Message := []

/-- Whether a happening brings a count. -/
def Happening.counts : Happening → Bool
  | .numbered _ _ | .seeded _ => true
  | .plain _ | .taken | .elsewhere _ => false

def Counter.after (c : Counter) : Happening → Counter
  | .numbered n m =>
    { seen := c.seen ++ [n]
      accepted := c.accepted ++ if ∀ k ∈ c.seen, k < n then [m] else [] }
  | .plain m => { c with accepted := c.accepted ++ [m] }
  | .seeded n => { c with seen := c.seen ++ [n] }
  | .taken | .elsewhere _ => c

/-- Whether a happening is about the subscription as it says, with a count near the largest one so
far. -/
def Fits (token : ByteArray) (serial : Nat) (seen : List Nat) : Happening → Prop
  | .numbered n m =>
    m.token = token ∧ m.observeValue = some (sequenceOf n) ∧ ∀ last ∈ seen.max?, Near last n
  | .plain m => m.token = token ∧ m.observeValue = none
  | .seeded n => ∀ last ∈ seen.max?, Near last n
  | .taken => True
  | .elsewhere call => call.Apart token serial

/-- Whether all that happens fits, one after the other. -/
def Regular (token : ByteArray) (serial : Nat) : Counter → List Happening → Prop
  | _, [] => True
  | c, h :: rest => Fits token serial c.seen h ∧ Regular token serial (c.after h) rest

variable {s : Subscriptions} {token : ByteArray} {serial : Nat} {e : Subscription} {seen : List Nat}
  {n : Nat} {m : Message}

/-- A number is newer than the last one recorded exactly if its count is larger than all before. -/
theorem isNewer_iff (hnear : ∀ last ∈ seen.max?, Near last n) :
    isNewer (seen.max?.map sequenceOf) (sequenceOf n) = true ↔ ∀ k ∈ seen, k < n := by
  cases hmax : seen.max? with
  | none =>
    rw [List.max?_eq_none_iff.mp hmax]
    simp [isNewer]
  | some last =>
    obtain ⟨hmem, hle⟩ := List.max?_eq_some_iff.mp hmax
    have hlast : isNewer ((some last).map sequenceOf) (sequenceOf n) = true ↔ last < n :=
      isFresher_iff (hnear last (by rw [hmax]; rfl))
    rw [hlast]
    constructor
    · intro hlt k hk
      exact Nat.lt_of_le_of_lt (hle k hk) hlt
    · intro hall
      exact hall last hmem

theorem max?_concat_of_newer (h : ∀ k ∈ seen, k < n) : (seen ++ [n]).max? = some n := by
  apply List.max?_eq_some_iff.mpr
  refine ⟨by simp, ?_⟩
  intro k hk
  rcases List.mem_append.mp hk with hk | hk
  · exact Nat.le_of_lt (h k hk)
  · exact Nat.le_of_eq (List.mem_singleton.mp hk)

theorem max?_concat_of_not_newer (h : ¬ ∀ k ∈ seen, k < n) : (seen ++ [n]).max? = seen.max? := by
  obtain ⟨k, hk, hnk⟩ : ∃ k ∈ seen, ¬ k < n := by simpa using h
  cases hmax : seen.max? with
  | none =>
    rw [List.max?_eq_none_iff.mp hmax] at hk
    cases hk
  | some last =>
    obtain ⟨hmem, hle⟩ := List.max?_eq_some_iff.mp hmax
    apply List.max?_eq_some_iff.mpr
    refine ⟨List.mem_append_left _ hmem, ?_⟩
    intro j hj
    rcases List.mem_append.mp hj with hj | hj
    · exact hle j hj
    · have hlast := hle k hk
      rw [List.mem_singleton.mp hj]
      omega

theorem accept_numbered (hlast : e.lastSequence = seen.max?.map sequenceOf)
    (hm : m.observeValue = some (sequenceOf n)) (hnear : ∀ last ∈ seen.max?, Near last n) :
    (e.accept m).lastSequence = (seen ++ [n]).max?.map sequenceOf ∧
      (e.accept m).queue = e.queue ++ if ∀ k ∈ seen, k < n then [m] else [] := by
  have hiff := isNewer_iff hnear
  rw [← hlast] at hiff
  by_cases hnew : ∀ k ∈ seen, k < n
  · have haccept : e.accept m =
        { e with lastSequence := some (sequenceOf n), queue := e.queue ++ [m] } := by
      simp [Subscription.accept, hm, hiff.mpr hnew]
    rw [haccept, max?_concat_of_newer hnew, if_pos hnew]
    exact ⟨rfl, rfl⟩
  · have haccept : e.accept m = e := by
      simp [Subscription.accept, hm, mt hiff.mp hnew]
    rw [haccept, max?_concat_of_not_newer hnew, if_neg hnew, List.append_nil]
    exact ⟨hlast, rfl⟩

theorem accept_plain (hm : m.observeValue = none) (e : Subscription) :
    e.accept m = { e with queue := e.queue ++ [m] } := by
  simp [Subscription.accept, hm]

theorem seed_seeded (hlast : e.lastSequence = seen.max?.map sequenceOf)
    (hnear : ∀ last ∈ seen.max?, Near last n) :
    (e.seed (sequenceOf n)).lastSequence = (seen ++ [n]).max?.map sequenceOf ∧
      (e.seed (sequenceOf n)).queue = e.queue := by
  have hiff := isNewer_iff hnear
  rw [← hlast] at hiff
  by_cases hnew : ∀ k ∈ seen, k < n
  · have hseed : e.seed (sequenceOf n) = { e with lastSequence := some (sequenceOf n) } := by
      simp [Subscription.seed, hiff.mpr hnew]
    rw [hseed, max?_concat_of_newer hnew]
    exact ⟨rfl, rfl⟩
  · have hseed : e.seed (sequenceOf n) = e := by
      simp [Subscription.seed, mt hiff.mp hnew]
    rw [hseed, max?_concat_of_not_newer hnew]
    exact ⟨hlast, rfl⟩

/-! One happening, and all of them. -/

/-- What the subscription that is looked at has in common with the counter: its serial number is
its own, its last number is the largest count's, and what it has taken in is what the counter
accepted. -/
structure Agrees (token : ByteArray) (serial : Nat) (w : Watch) (c : Counter) : Prop where
  marked : w.table.Marks token serial
  entry : ∃ e, w.table.find? token = some e ∧ e.lastSequence = c.seen.max?.map sequenceOf ∧
    w.taken ++ e.queue = c.accepted

variable {w : Watch} {c : Counter}

/-- A call about another subscription keeps the entry and its serial number. -/
theorem apart_apply {call : Elsewhere} (hmarked : s.Marks token serial)
    (hfind : s.find? token = some e) (hcall : call.Apart token serial) :
    (call.apply s).Marks token serial ∧ (call.apply s).find? token = some e := by
  cases call with
  | register t k =>
    obtain ⟨ht, hk⟩ := hcall
    unfold Elsewhere.apply
    dsimp only
    split
    · rename_i s' hregister
      obtain ⟨-, rfl⟩ := register_eq_ok hregister
      refine ⟨?_, ?_⟩
      · intro e' he'
        rcases List.mem_append.mp he' with he' | he'
        · exact hmarked e' he'
        · rw [List.mem_singleton.mp he']
          exact ⟨fun h => absurd h hk, fun h => absurd h ht⟩
      · unfold find? at hfind ⊢
        rw [List.find?_append, hfind]
        rfl
    · exact ⟨hmarked, hfind⟩
  | deregister t =>
    refine ⟨?_, find?_deregister_ne hfind hcall⟩
    intro e' he'
    exact hmarked e' (List.mem_filter.mp he').1
  | handle m =>
    have hkeeps := keepsKeys_accept m
    exact ⟨hmarked.modify hkeeps, find?_modify_ne hkeeps hfind hcall⟩
  | seed t q =>
    have hkeeps := keepsKeys_seed q
    exact ⟨hmarked.modify hkeeps, find?_modify_ne hkeeps hfind hcall⟩
  | take k =>
    unfold Elsewhere.apply
    dsimp only
    split
    · rename_i m s' htake
      obtain ⟨rest, rfl⟩ := take_eq_some htake
      have hkeeps := (keepsKeys_queue rest).ite fun e => e.serial == k
      have hother : ¬ (e.serial == k) = true := by
        rw [hmarked.serial_eq hfind, beq_iff_eq]
        exact fun h => hcall h.symm
      refine ⟨hmarked.map hkeeps, ?_⟩
      rw [find?_entries_map hkeeps]
      change (s.find? token).map _ = _
      rw [hfind, Option.map_some, if_neg hother]
    · exact ⟨hmarked, hfind⟩

/-- The oldest waiting notification is taken from the entry's queue. -/
theorem take_of_find? (hmarked : s.Marks token serial) (hfind : s.find? token = some e) :
    s.take serial = match e.queue with
      | [] => none
      | m :: rest => some (m, s.modify token fun e => { e with queue := rest }) := by
  have hserial : (s.entries.find? fun e => e.serial == serial) = some e := by
    rw [hmarked.find?_serial, hfind]
  unfold take
  rw [hserial]
  dsimp only
  cases e.queue with
  | nil => rfl
  | cons m rest =>
    have hsame : ∀ e ∈ s.entries, (if e.serial == serial then { e with queue := rest } else e) =
        if e.token == token then { e with queue := rest } else e := by
      intro e he
      have hiff := hmarked e he
      simp only [beq_iff_eq, hiff]
    dsimp only
    rw [List.map_congr_left hsame]
    rfl

/-- A happening that fits keeps the subscription and the counter in step. -/
theorem Agrees.after (h : Agrees token serial w c) {x : Happening}
    (hfits : Fits token serial c.seen x) :
    Agrees token serial (w.after token serial x) (c.after x) := by
  obtain ⟨hmarked, e, hfind, hlast, hqueue⟩ := h
  cases x with
  | numbered n m =>
    obtain ⟨rfl, hsequence, hnear⟩ := hfits
    have hkeeps := keepsKeys_accept m
    obtain ⟨hlast', hqueue'⟩ := accept_numbered hlast hsequence hnear
    refine ⟨hmarked.modify hkeeps, e.accept m, find?_modify_self hkeeps hfind, hlast', ?_⟩
    change w.taken ++ (e.accept m).queue = c.accepted ++ _
    rw [hqueue', ← List.append_assoc, hqueue]
  | plain m =>
    obtain ⟨rfl, hnone⟩ := hfits
    have hkeeps := keepsKeys_accept m
    refine ⟨hmarked.modify hkeeps, e.accept m, find?_modify_self hkeeps hfind, ?_, ?_⟩
    · rw [accept_plain hnone]
      exact hlast
    · change w.taken ++ (e.accept m).queue = c.accepted ++ [m]
      rw [accept_plain hnone, ← List.append_assoc, hqueue]
  | seeded n =>
    have hkeeps := keepsKeys_seed (sequenceOf n)
    obtain ⟨hlast', hqueue'⟩ := seed_seeded hlast hfits
    refine ⟨hmarked.modify hkeeps, e.seed (sequenceOf n), find?_modify_self hkeeps hfind, hlast', ?_⟩
    rw [hqueue']
    exact hqueue
  | taken =>
    have htake := take_of_find? hmarked hfind
    unfold Watch.after
    dsimp only
    -- Taking moves the head of the queue to the end of what has been taken.
    cases hq : e.queue with
    | nil =>
      rw [hq] at htake
      rw [htake]
      exact ⟨hmarked, e, hfind, hlast, hqueue⟩
    | cons m rest =>
      rw [hq] at htake
      rw [htake]
      have hkeeps := keepsKeys_queue rest
      refine ⟨hmarked.modify hkeeps, { e with queue := rest }, find?_modify_self hkeeps hfind,
        hlast, ?_⟩
      rw [hq] at hqueue
      change (w.taken ++ [m]) ++ rest = c.accepted
      rw [← hqueue, List.append_assoc]
      rfl
  | elsewhere call =>
    obtain ⟨hmarked', hfind'⟩ := apart_apply hmarked hfind hfits
    exact ⟨hmarked', e, hfind', hlast, hqueue⟩

theorem regular_append {before later : List Happening} :
    Regular token serial c (before ++ later) ↔
      Regular token serial c before ∧ Regular token serial (before.foldl Counter.after c) later := by
  induction before generalizing c with
  | nil => simp [Regular]
  | cons x before ih =>
    rw [List.cons_append, Regular, Regular, ih, and_assoc, List.foldl_cons]

theorem Agrees.run {happenings : List Happening} (h : Agrees token serial w c)
    (hregular : Regular token serial c happenings) :
    Agrees token serial (happenings.foldl (Watch.after token serial) w)
      (happenings.foldl Counter.after c) := by
  induction happenings generalizing w c with
  | nil => exact h
  | cons x rest ih =>
    obtain ⟨hfits, hrest⟩ := hregular
    exact ih (h.after hfits) hrest

/-- A new subscription has seen nothing and accepted nothing. -/
theorem agrees_of_register {s₀ : Subscriptions} (hserial : s₀.holds serial = false)
    (hregister : s₀.register token serial = .ok s) : Agrees token serial { table := s } {} := by
  obtain ⟨hnone, rfl⟩ := register_eq_ok hregister
  refine ⟨?_, { token, serial }, ?_, rfl, rfl⟩
  · intro e he
    rcases List.mem_append.mp he with he | he
    · have hserial' : e.serial ≠ serial := by
        have hall := List.any_eq_false.mp hserial e he
        simpa using hall
      have htoken : e.token ≠ token := by
        have hall := List.find?_eq_none.mp hnone e he
        simpa using hall
      exact ⟨fun h => absurd h hserial', fun h => absurd h htoken⟩
    · rw [List.mem_singleton.mp he]
      exact ⟨fun _ => rfl, fun _ => rfl⟩
  · unfold find? at hnone ⊢
    rw [List.find?_append, hnone]
    simp

/-- What brings no count changes neither the counts nor which numbered notifications are
accepted. -/
theorem counted_only {happenings : List Happening} (hregular : Regular token serial c happenings)
    (only : Counter) (hseen : c.seen = only.seen)
    (haccepted : (c.accepted.filter fun m => m.observeValue.isSome) = only.accepted) :
    (happenings.foldl Counter.after c).seen =
        ((happenings.filter Happening.counts).foldl Counter.after only).seen ∧
      ((happenings.foldl Counter.after c).accepted.filter fun m => m.observeValue.isSome) =
        ((happenings.filter Happening.counts).foldl Counter.after only).accepted := by
  induction happenings generalizing c only with
  | nil => exact ⟨hseen, haccepted⟩
  | cons x rest ih =>
    obtain ⟨hfits, hrest⟩ := hregular
    cases x with
    | numbered n m =>
      obtain ⟨-, hsequence, -⟩ := hfits
      have hnumbered : (([m] : List Message).filter fun m => m.observeValue.isSome) = [m] := by
        simp [hsequence]
      refine ih hrest (only.after (.numbered n m)) ?_ ?_
      · change c.seen ++ [n] = only.seen ++ [n]
        rw [hseen]
      · change (c.accepted ++ _).filter _ = only.accepted ++ _
        rw [List.filter_append, haccepted, hseen]
        split
        · rw [hnumbered]
        · rfl
    | plain m =>
      obtain ⟨-, hnone⟩ := hfits
      refine ih hrest only hseen ?_
      change (c.accepted ++ [m]).filter _ = only.accepted
      rw [List.filter_append, haccepted]
      simp [hnone]
    | seeded n =>
      refine ih hrest (only.after (.seeded n)) ?_ haccepted
      change c.seen ++ [n] = only.seen ++ [n]
      rw [hseen]
    | taken => exact ih hrest only hseen haccepted
    | elsewhere call => exact ih hrest only hseen haccepted

/-- At every moment of a run that fits, a new subscription has accepted the notifications whose
count was larger than all before it and those without a number, in their order; it has recorded the
place of the largest count; and it takes the next notification as handled. Notifications without a
number and calls about other subscriptions change neither the counts nor which numbered
notifications are accepted. -/
theorem accepts_exactly_the_larger {s₀ s : Subscriptions} {token : ByteArray} {serial : Nat}
    (hserial : s₀.holds serial = false) (hregister : s₀.register token serial = .ok s)
    {before later : List Happening} (hregular : Regular token serial {} (before ++ later)) :
    let w := before.foldl (Watch.after token serial) { table := s }
    let c := before.foldl Counter.after {}
    let only := (before.filter Happening.counts).foldl Counter.after {}
    (∃ e, w.table.find? token = some e ∧
      e.lastSequence = c.seen.max?.map sequenceOf ∧
      w.taken ++ e.queue = c.accepted) ∧
    c.seen = only.seen ∧
    (c.accepted.filter fun m => m.observeValue.isSome) = only.accepted ∧
    ∀ n m, later.head? = some (.numbered n m) ∨ later.head? = some (.plain m) →
      (w.table.tryHandle m).1 = true := by
  intro w c only
  obtain ⟨hbefore, hlater⟩ := regular_append.mp hregular
  obtain ⟨-, hentry⟩ := (agrees_of_register hserial hregister).run hbefore
  obtain ⟨hseen, haccepted⟩ := counted_only hbefore {} rfl rfl
  refine ⟨hentry, hseen, haccepted, ?_⟩
  intro n m hnext
  obtain ⟨e, hfind, -, -⟩ := hentry
  have htoken : m.token = token := by
    cases later with
    | nil => simp at hnext
    | cons x rest =>
      obtain ⟨hfits, -⟩ := hlater
      simp only [List.head?_cons, Option.some.injEq] at hnext
      rcases hnext with rfl | rfl
      · exact hfits.1
      · exact hfits.1
  change w.table.isActive m.token = true
  rw [htoken]
  exact isActive_of_find? hfind

/-- A notification that carries the number of a count. -/
def sampleNotification (token : ByteArray) (n : Nat) : Message :=
  { type := .nonConfirmable, code := .response .content, token, options := [.observe (sequenceOf n)] }

/-- Three counts and a seed around the end of the circle, the last one late, with a notification
without a number, a delivery and another subscription in between. -/
def sampleHappenings (token : ByteArray) : List Happening :=
  [.numbered 16777214 (sampleNotification token 16777214), .seeded 16777215,
    .elsewhere (.register ⟨#[2]⟩ 1), .numbered 16777217 (sampleNotification token 16777217), .taken,
    .plain { type := .nonConfirmable, code := .response .content, token },
    .elsewhere (.handle (sampleNotification ⟨#[2]⟩ 9)),
    .numbered 16777216 (sampleNotification token 16777216)]

/-- Past the end of the circle the later count is accepted and the late one is not. -/
theorem sample_accepts_the_larger :
    let token : ByteArray := ⟨#[1]⟩
    let w := (sampleHappenings token).foldl (Watch.after token 0) { table := ⟨[{ token, serial := 0 }]⟩ }
    ∃ e, w.table.find? token = some e ∧ e.lastSequence = some 1 ∧
      w.taken ++ e.queue = [sampleNotification token 16777214, sampleNotification token 16777217,
        { type := .nonConfirmable, code := .response .content, token }] := by
  intro token w
  have happart : (⟨#[2]⟩ : ByteArray) ≠ token := by decide
  have hregular : Regular token 0 {} (sampleHappenings token ++ []) := by
    refine ⟨⟨rfl, rfl, nofun⟩, ?_, ⟨happart, by decide⟩, ⟨rfl, rfl, ?_⟩, trivial, ⟨rfl, rfl⟩,
      happart, ⟨rfl, rfl, ?_⟩, trivial⟩
    all_goals
      intro last hlast
      cases hlast
      decide
  obtain ⟨⟨e, hfind, hlast, haccepted⟩, -⟩ :=
    @accepts_exactly_the_larger {} _ token 0 rfl rfl _ _ hregular
  exact ⟨e, hfind, hlast.trans (by decide), haccepted.trans (by decide)⟩

end Subscriptions

end Coap

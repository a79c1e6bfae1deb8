import Coap.Proofs.DownloadSoundness
import Coap.Proofs.ExchangeLedger
import Coap.Proofs.RequestTransparency
import Coap.Proofs.SubscriptionMoves
import Coap.Proofs.UploadSoundness

/-! Where the messages come from that a client sends: the message that a request is turned into, and
all that is made of it on the way to the wire. What holds of the first, and is handed on by each such
change, holds of everything that any operation or worker sends. -/
namespace Coap

/-- What is kept of a registration: the template of an observation. -/
def Message.IsTemplate (template : Message) : Prop :=
  ∃ (request : Request) (m : Message) (token : ByteArray),
    request.registration.toMessage = .ok m ∧ token.size = maxTokenLength ∧
      template = (Message.followUp { m with token }).removeOptions OptionKind.observe.number

/-- A property that a message hands on to the messages of its transfer. -/
structure Inherited (P : Message → Prop) : Prop where
  numbered : ∀ {m : Message} (id : UInt16), P m → P { m with id }
  followUp : ∀ {m : Message}, P m → P m.followUp
  part : ∀ {u : Upload} {m r : Message}, P m → u.payload = m.payload →
    u.template = { m with payload := ByteArray.empty } → u.request = .ok r → P r
  next : ∀ {d : Download} {r : Message}, P d.template → d.request = .ok r → P r

/-- A property that registrations have, and that a message hands on to all that is made of it. -/
structure Hereditary (P : Message → Prop) : Prop extends Inherited P where
  registered : ∀ {request : Request} {m : Message} {token : ByteArray},
    request.registration.toMessage = .ok m → token.size = Message.maxTokenLength → P { m with token }
  unobserved : ∀ {m : Message}, P m → P (m.removeOptions OptionKind.observe.number)
  deregistered : ∀ {m : Message}, P m → P (m.setOption (.observe Session.observeDeregister))

variable {P : Message → Prop}

theorem Hereditary.template (hP : Hereditary P) {m : Message} (h : m.IsTemplate) : P m := by
  obtain ⟨request, m, token, hm, htoken, rfl⟩ := h
  exact hP.unobserved (hP.followUp (hP.registered hm htoken))

/-- The parts of an upload have the code and the token of the message that is uploaded. -/
theorem Upload.request_header {u : Upload} {r : Message} (h : u.request = .ok r) :
    r.code = u.template.code ∧ r.token = u.template.token := by
  obtain ⟨value, -, rfl⟩ := request_eq_ok h
  dsimp only
  split <;> exact ⟨rfl, rfl⟩

/-- All messages of a transfer have its code and its token. -/
theorem inherited_header (P : Code → ByteArray → Prop) : Inherited fun m => P m.code m.token where
  numbered := fun _ h => h
  followUp := fun h => h
  part := by
    intro u m r hm _ htemplate hr
    obtain ⟨hcode, htoken⟩ := Upload.request_header hr
    rw [hcode, htoken, htemplate]
    exact hm
  next := by
    intro d r hd hr
    obtain ⟨value, -, rfl⟩ := Download.request_eq_ok hr
    exact hd

/-- All messages of a transfer have the options of the request that do not describe blocks. -/
theorem inherited_numbered {number : UInt16} (hblock1 : OptionKind.block1.number ≠ number)
    (hblock2 : OptionKind.block2.number ≠ number) (hsize1 : OptionKind.size1.number ≠ number)
    (options : List MessageOption) : Inherited fun m => m.numbered number = options where
  numbered := fun _ h => h
  followUp := by
    intro m h
    calc
      _ = (({ m with payload := ByteArray.empty }).removeOptions
            OptionKind.block1.number).numbered number := Message.numbered_removeOptions_ne _ hsize1
      _ = m.numbered number := Message.numbered_removeOptions_ne _ hblock1
      _ = options := h
  part := by
    intro u m r h _ htemplate hr
    obtain ⟨value, -, rfl⟩ := Upload.request_eq_ok hr
    let part := { u.template with payload := u.payload.extract u.offset u.stop }
    have hset : (part.setOption (.block1 value)).numbered number = options :=
      calc
        _ = u.template.numbered number := Message.numbered_setOption_ne part (.block1 value) number hblock1
        _ = m.numbered number := by rw [htemplate]; rfl
        _ = options := h
    dsimp only
    split
    -- Only the first part tells the size of the payload.
    · exact (Message.numbered_setOption_ne _ (.size1 _) number hsize1).trans hset
    · exact hset
  next := by
    intro d r hd hr
    obtain ⟨value, -, rfl⟩ := Download.request_eq_ok hr
    exact (Message.numbered_setOption_ne _ (.block2 _) number hblock2).trans hd

/-! Activities ask for messages with the property only -/

/-- What a turn asks for has the property, and the state that it leaves hands the property on. -/
def Turn.Carries {σ ρ : Type} (P : Message → Prop) (state : σ → Prop) : Turn σ ρ → Prop
  | .ask request next => P request ∧ state next
  | .finish _ => True

def Upload.Carries (P : Message → Prop) (u : Upload) : Prop :=
  ∃ m, P m ∧ u.payload = m.payload ∧ u.template = { m with payload := ByteArray.empty }

def Download.Carries (P : Message → Prop) (d : Download) : Prop := P d.template

def Transfer.Stage.Carries (P : Message → Prop) : Transfer.Stage → Prop
  | .whole => True
  | .uploading u => u.Carries P
  | .downloading _ d => d.Carries P

structure Transfer.Carries (P : Message → Prop) (t : Transfer) : Prop where
  followUp : P t.followUp
  stage : t.stage.Carries P

def Delivery.Carries (P : Message → Prop) (d : Delivery) : Prop := d.download.Carries P

theorem Upload.turn_carries (hP : Inherited P) {u : Upload} (h : u.Carries P) :
    u.turn.Carries P (Upload.Carries P) := by
  cases hr : u.request with
  | error e =>
    rw [turn_of_error hr]
    trivial
  | ok r =>
    rw [turn_of_request hr]
    obtain ⟨m, hm, hpayload, htemplate⟩ := h
    exact ⟨hP.part hm hpayload htemplate hr, m, hm, hpayload, htemplate⟩

theorem Upload.start_carries (hP : Inherited P) {m : Message} (hm : P m) (size : BlockSize) :
    (Upload.start { m with payload := ByteArray.empty } m.payload size).Carries P
      (Upload.Carries P) := by
  unfold start
  split
  · trivial
  split
  · trivial
  · exact turn_carries hP ⟨m, hm, rfl, rfl⟩

theorem Upload.resume_carries (hP : Inherited P) {u : Upload} (h : u.Carries P) (answer : Outcome) :
    (u.resume answer).turn.Carries P (Upload.Carries P) := by
  cases answer with
  | error e => trivial
  | ok m =>
    rw [resume_turn]
    split
    · exact turn_carries (u := u.next m) hP h
    · trivial

/-! A download asks only for what its template leads to. -/

section Download

variable {Q : Message → Prop}
  (hnext : ∀ {d : Download} {r : Message}, Q d.template → d.request = .ok r → P r)
include hnext

theorem Download.turn_carries {d : Download} (h : d.Carries Q) :
    d.turn.Carries P (Download.Carries Q) := by
  cases hmore : d.block.more with
  | false =>
    rw [turn_of_complete hmore]
    trivial
  | true =>
    cases hr : d.request with
    | error e =>
      rw [turn_of_error hmore hr]
      trivial
    | ok r =>
      rw [turn_of_request hmore hr]
      exact ⟨hnext h hr, h⟩

theorem Download.start_carries {template : Message} (h : Q template) (first : Message) :
    (Download.start template first).turn.Carries P (Download.Carries Q) := by
  unfold start
  split
  · trivial
  · exact turn_carries hnext h

theorem Download.resume_carries {d : Download} (h : d.Carries Q) (answer : Outcome) :
    (d.resume answer).turn.Carries P (Download.Carries Q) := by
  unfold resume
  repeat' split
  any_goals trivial
  exact turn_carries hnext h

end Download

theorem Transfer.ofDownload_carries {t : Transfer} {s : Stride Download (Except ClientError Assembly)}
    (ht : P t.followUp) (h : s.turn.Carries P (Download.Carries P)) (first : Message) :
    (t.ofDownload first s).turn.Carries P (Transfer.Carries P) := by
  unfold ofDownload
  dsimp only
  split
  · rename_i hturn
    rw [hturn] at h
    exact ⟨h.1, ht, h.2⟩
  all_goals trivial

theorem Transfer.received_carries (hP : Inherited P) {t : Transfer} (ht : P t.followUp)
    (answer : Message) : (t.received answer).turn.Carries P (Transfer.Carries P) := by
  unfold received
  split
  · exact ofDownload_carries ht (Download.start_carries hP.next ht answer) answer
  · trivial

theorem Transfer.ofUpload_carries (hP : Inherited P) {t : Transfer} {s : Stride Upload Outcome}
    (ht : P t.followUp) (h : s.turn.Carries P (Upload.Carries P)) :
    (t.ofUpload s).turn.Carries P (Transfer.Carries P) := by
  unfold ofUpload
  split
  · rename_i hturn
    rw [hturn] at h
    exact ⟨h.1, ht, h.2⟩
  · trivial
  · exact received_carries hP ht _

theorem Transfer.start_carries (hP : Inherited P) (settings : TransferSettings)
    {request followUp : Message} (hr : P request) (hf : P followUp) :
    (Transfer.start settings request followUp).turn.Carries P (Transfer.Carries P) := by
  unfold start
  dsimp only
  split
  · exact ofUpload_carries hP hf (Upload.start_carries hP hr _)
  · exact ⟨hr, hf, trivial⟩

theorem Transfer.resume_carries (hP : Inherited P) {t : Transfer} (h : t.Carries P)
    (answer : Outcome) : (t.resume answer).turn.Carries P (Transfer.Carries P) := by
  obtain ⟨settings, followUp, stage⟩ := t
  obtain ⟨hf, hstage⟩ := h
  cases stage with
  | whole =>
    cases answer with
    | error e => trivial
    | ok m => exact received_carries hP hf m
  | uploading u => exact ofUpload_carries hP hf (Upload.resume_carries hP hstage answer)
  | downloading first d => exact ofDownload_carries hf (Download.resume_carries hP.next hstage answer) first

section Delivery

variable {Q : Message → Prop}

theorem Delivery.ofDownload_carries {s : Stride Download (Except ClientError Assembly)}
    (h : s.turn.Carries P (Download.Carries Q)) (notification : Message) :
    (Delivery.ofDownload notification s).turn.Carries P (Delivery.Carries Q) := by
  unfold ofDownload
  dsimp only
  split
  · rename_i hturn
    rw [hturn] at h
    exact h
  all_goals trivial

variable (hnext : ∀ {d : Download} {r : Message}, Q d.template → d.request = .ok r → P r)
include hnext

theorem Delivery.start_carries {template : Message} (h : Q template) (blockTransfer : Bool)
    (notification : Message) :
    (Delivery.start blockTransfer template notification).turn.Carries P (Delivery.Carries Q) := by
  unfold start
  split
  · exact ofDownload_carries (Download.start_carries hnext h notification) notification
  · trivial

theorem Delivery.resume_carries {d : Delivery} (h : d.Carries Q) (answer : Outcome) :
    (d.resume answer).turn.Carries P (Delivery.Carries Q) :=
  ofDownload_carries (Download.resume_carries hnext h answer) d.notification

end Delivery

/-! Exchanges -/

/-- The message of an exchange has the property, and it is valid once it has been checked. -/
def Exchange.Carries (P : Message → Prop) : Exchange → Prop
  | .begun request => P request
  | .checked request | .registered request _ | .sending request _ => P request ∧ request.Valid
  | .waiting _ _ | .ended _ => True

theorem Message.Valid.numbered {m : Message} (h : m.Valid) (id : UInt16) : { m with id }.Valid where
  token := h.token
  data := h.data
  options := h.options

/-- A request goes on to be registered only if it has passed the check. -/
theorem Connection.valid_of_checked {c : Connection} {cancelled : Bool} {request : Message}
    (hs : c.step cancelled (.begun request) =
      some { connection := c, exchange := .checked request }) : request.Valid := by
  unfold step at hs
  dsimp only at hs
  split at hs
  · cases hs
  · split at hs
    · cases hs
    · rename_i hvalid
      exact Message.validate_eq_ok_iff.mp hvalid

/-- A step hands the property on, and what it sends has the property and is valid. -/
theorem Connection.step_carries (hP : Inherited P) {c : Connection} {cancelled : Bool} {e : Exchange}
    {stepped : Connection.Stepped} (hs : c.step cancelled e = some stepped) (h : e.Carries P) :
    stepped.exchange.Carries P ∧ ∀ m, stepped.sent = some m → P m ∧ m.Valid := by
  have hsilent (hsent : stepped.sent = none) (m : Message) (hm : stepped.sent = some m) :
      P m ∧ m.Valid := by
    rw [hsent] at hm
    cases hm
  cases advance_of_step hs with
  | checked => exact ⟨⟨h, valid_of_checked hs⟩, hsilent rfl⟩
  | registered _ => exact ⟨⟨hP.numbered _ h.1, h.2.numbered _⟩, hsilent rfl⟩
  | passed _ => exact ⟨h, hsilent rfl⟩
  | sent _ =>
    refine ⟨trivial, ?_⟩
    intro m hm
    cases hm
    exact h
  -- What has ended has no message any more.
  | refused | exhausted | shut _ | stopped _ | unsent _ | fetched _ => exact ⟨trivial, hsilent rfl⟩

end Coap

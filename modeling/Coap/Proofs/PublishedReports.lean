import Coap.Proofs.NotificationOrder
import Coap.Proofs.OperationScripts
import Coap.Proofs.ProgressReports
import Coap.Proofs.RequestTransparency

/-! What a client publishes along a run: the reports of the uploads and downloads of its operations, and
of the downloads of its notifications, as their blocks get through. -/
namespace Coap

namespace Transfer

/-- The upload of a request that is too large to go out whole. -/
def upload? (settings : TransferSettings) (request : Message) : Option (Stride Upload Outcome) :=
  if settings.blockTransfer && settings.blockSize.bytes < request.payload.size then
    some { turn := Upload.start { request with payload := ByteArray.empty } request.payload
                     settings.blockSize }
  else none

/-- The reports on the blocks of the request. -/
def uploadReports (settings : TransferSettings) (request : Message) (answers : List Outcome) :
    List Progress :=
  match upload? settings request with
  | some upload => (upload.run Upload.resume answers).reports
  | none => []

/-- The answer to the whole of the request, once it is there. -/
def answerTo (settings : TransferSettings) (request : Message) (answers : List Outcome) :
    Option Message :=
  match upload? settings request with
  | some upload => (upload.run Upload.resume answers).result.bind Except.toOption
  | none => answers.head?.bind Except.toOption

/-- The reports on the blocks of a response, of which the message `first` is the beginning. -/
def fetchReports (settings : TransferSettings) (followUp first : Message) (answers : List Outcome) :
    List Progress :=
  if settings.blockTransfer && first.code.isSuccess && first.block2Value.isSome then
    ((Download.start followUp first).run Download.resume answers).reports
  else []

/-- The reports on the blocks of the response to a request. -/
def downloadReports (settings : TransferSettings) (request followUp : Message)
    (answers : List Outcome) : List Progress :=
  match answerTo settings request answers with
  | some first =>
    fetchReports settings followUp first (answers.drop (opening settings request answers).length)
  | none => []

theorem reports_received (t : Transfer) (first : Message) (answers : List Outcome) :
    ((t.received first).run resume answers).reports =
      fetchReports t.settings t.followUp first answers := by
  unfold received fetchReports
  split
  · rw [run_ofDownload]
  · rw [Stride.run_of_finish rfl]

/-- What the upload of a request reports, and then what is reported of the response. -/
def reportsAfter (settings : TransferSettings) (followUp : Message) (upload : Trace Outcome)
    (answers : List Outcome) : List Progress :=
  upload.reports ++ match upload.result.bind Except.toOption with
    | some first => fetchReports settings followUp first (answers.drop upload.requests.length)
    | none => []

/-- The reports of a stride that has some more than another one, and then goes on as that one. -/
theorem reports_of_turn {s s' : Stride Transfer (Except ClientError Response)} {earlier : List Progress}
    (h : s.turn = s'.turn) (hreports : s.reports = earlier ++ s'.reports) (answers : List Outcome) :
    (s.run resume answers).reports = earlier ++ (s'.run resume answers).reports := by
  cases hturn : s'.turn with
  | finish result =>
    rw [Stride.run_of_finish hturn, Stride.run_of_finish (h.trans hturn)]
    exact hreports
  | ask request state =>
    cases answers with
    | nil =>
      rw [Stride.run_of_ask_nil hturn, Stride.run_of_ask_nil (h.trans hturn)]
      exact hreports
    | cons answer rest =>
      rw [Stride.run_of_ask_cons hturn, Stride.run_of_ask_cons (h.trans hturn), hreports]
      exact List.append_assoc ..

/-- A transfer reports what its upload does, and then the blocks of the response. -/
theorem reports_ofUpload (t : Transfer) (s : Stride Upload Outcome) (answers : List Outcome) :
    ((t.ofUpload s).run resume answers).reports =
      reportsAfter t.settings t.followUp (s.run Upload.resume answers) answers := by
  have hover {t : Transfer} {s : Stride Upload Outcome} {outcome : Outcome} (answers : List Outcome)
      (hs : s.turn = .finish outcome) : ((t.ofUpload s).run resume answers).reports =
        reportsAfter t.settings t.followUp (s.run Upload.resume answers) answers := by
    rw [Stride.run_of_finish hs]
    cases outcome with
    | error e =>
      have hsame : (t.ofUpload s).reports = s.reports := by simp only [ofUpload, hs]
      rw [Stride.run_of_finish (ofUpload_of_error hs t), hsame]
      exact (List.append_nil _).symm
    | ok first =>
      have hsame : (t.ofUpload s).reports = s.reports ++ (t.received first).reports := by
        simp only [ofUpload, hs]
      rw [reports_of_turn (ofUpload_of_answer hs t) hsame, reports_received]
      rfl
  -- Until the upload is over each answer goes to it.
  induction answers generalizing t s with
  | nil =>
    cases hs : s.turn with
    | ask request u =>
      have hreports : (t.ofUpload s).reports = s.reports := by simp only [ofUpload, hs]
      rw [Stride.run_of_ask_nil (ofUpload_of_ask hs t), Stride.run_of_ask_nil hs, hreports]
      exact (List.append_nil _).symm
    | finish outcome => exact hover [] hs
  | cons answer rest ih =>
    cases hs : s.turn with
    | ask request u =>
      have hreports : (t.ofUpload s).reports = s.reports := by simp only [ofUpload, hs]
      have hnext := ih { t with stage := .uploading u } (u.resume answer)
      rw [Stride.run_of_ask_cons (ofUpload_of_ask hs t), Stride.run_of_ask_cons hs, hreports]
      exact (congrArg (s.reports ++ ·) hnext).trans (List.append_assoc ..).symm
    | finish outcome => exact hover (answer :: rest) hs

/-- A transfer reports the blocks of its request, and then those of the response. -/
theorem reports_of_start (settings : TransferSettings) (request followUp : Message)
    (answers : List Outcome) :
    ((start settings request followUp).run resume answers).reports =
      uploadReports settings request answers ++
        downloadReports settings request followUp answers := by
  let t : Transfer := { settings, followUp, stage := .whole }
  unfold uploadReports downloadReports answerTo opening upload?
  by_cases hlarge : (settings.blockTransfer &&
      settings.blockSize.bytes < request.payload.size) = true
  · have hstart : start settings request followUp = t.ofUpload
        { turn := Upload.start { request with payload := ByteArray.empty } request.payload
            settings.blockSize } := if_pos hlarge
    rw [if_pos hlarge, if_pos hlarge, hstart]
    exact reports_ofUpload t _ answers
  · have hturn : (start settings request followUp).turn = .ask request t :=
      congrArg Stride.turn (if_neg hlarge)
    have hnone : (start settings request followUp).reports = [] :=
      congrArg Stride.reports (if_neg hlarge)
    rw [if_neg hlarge, if_neg hlarge]
    cases answers with
    | nil =>
      rw [Stride.run_of_ask_nil hturn]
      exact hnone
    | cons answer rest =>
      rw [Stride.run_of_ask_cons hturn, hnone]
      cases answer with
      | error e => rw [Stride.run_of_finish rfl]; rfl
      | ok first => exact reports_received t first rest

end Transfer

namespace Session

/-- What has been published in the run `past`: the feed holds the reports of all tasks in the order of
their moves; those of each task are the reports of its transfers, on the answers that it has got. -/
structure Published (first : Session) (past : List Move) (s : Session) : Prop where
  feed : s.reports = (along publications first past).map Prod.snd
  /-- A receiver gets what it has not seen, but for the oldest reports if there are too many. -/
  receivers : ∀ r : FeedReceiver, s.feed.drain r =
    ((s.reports.drop r.position).length - Feed.capacity,
      (s.reports.drop r.position).drop ((s.reports.drop r.position).length - Feed.capacity),
      s.feed.subscribe)
  /-- An operation publishes the upload of its request, and then the download of the response. -/
  operations : ∀ n,
    heardBy first (.operation n) past = [] ∧ publishedBy first (.operation n) past = [] ∨
    ∃ p : Plan, p.IsOf (callsMade first past) (grantsOf first past) n ∧
      publishedBy first (.operation n) past =
        Transfer.uploadReports s.transfers p.request (heardBy first (.operation n) past) ++
          Transfer.downloadReports s.transfers p.request p.further
            (heardBy first (.operation n) past)
  /-- A worker publishes the downloads of its notifications, one after the other. -/
  workers : ∀ w ∈ enlistments first past, ∃ rounds : List Round,
    rounds.map Round.message = takenBy first w.serial past ∧
    rounds.flatMap Round.answers = heardBy first (.worker w.serial) past ∧
    (∀ r ∈ rounds.dropLast, r.Over s.transfers.blockTransfer w.template) ∧
    publishedBy first (.worker w.serial) past =
      rounds.flatMap (Round.reports s.transfers.blockTransfer w.template)
  /-- Nobody else publishes anything. -/
  others : publishedBy first .receiver past = [] ∧
    ∀ k, (∀ w ∈ enlistments first past, w.serial ≠ k) → publishedBy first (.worker k) past = []

variable {options : ConnectOptions} {pipe : Pipe} {messageIds : MessageIds} {tokens : Tokens}
  {timer : Timer} {past : List Move} {s : Session}

theorem published_of_run (hs : (start options pipe messageIds tokens timer).run past = some s) :
    Published (start options pipe messageIds tokens timer) past s where
  feed := feed_of_run rfl hs
  receivers := Feed.drain_eq s.feed
  operations := by
    intro n
    refine (acts_run hs n).reports.imp_right ?_
    rintro ⟨p, hp, hreports⟩
    exact ⟨p, hp, hreports.symm.trans (Transfer.reports_of_start ..)⟩
  workers := by
    intro w hw
    obtain ⟨calls, rounds, -, haccounts⟩ := ((audited_run hs).account w hw).rounds
    have hheard := haccounts.answers.trans (usedBy_eq_heardBy ..)
    exact ⟨rounds, haccounts.messages, hheard, haccounts.earlier, haccounts.reports.symm⟩
  others := ⟨publishedBy_receiver hs, (audited_run hs).quiet⟩

end Session

/-- The events that a client publishes are exact. In every run they are, task by task, the reports of
its transfers. An upload reports each block that has been answered, with the bytes sent up to it, and
the last block as such. A download reports each block that it takes in, with the bytes received up to
it and the size that the first message announced; the last block is reported as such exactly if the
payload is returned, and then it is reported last, with the size of that. -/
theorem reports_exact :
    (∀ (options : ConnectOptions) (pipe : Pipe) (messageIds : MessageIds) (tokens : Tokens)
      (timer : Timer) (past : List Move) (s : Session),
      (Session.start options pipe messageIds tokens timer).run past = some s →
      Session.Published (Session.start options pipe messageIds tokens timer) past s) ∧
    (∀ (template : Message) (payload : ByteArray) (size : BlockSize) (answers : List Outcome),
      let t := Stride.run Upload.resume { turn := Upload.start template payload size } answers
      Upload.Reported payload 0 answers t.requests t.reports) ∧
    (∀ (template first : Message) (answers : List Outcome),
      Download.Reported first answers
        (Stride.run Download.resume (Download.start template first) answers)) := by
  refine ⟨?_, Upload.reported_of_start, Download.reported_of_start⟩
  intro options pipe messageIds tokens timer past s hs
  exact Session.published_of_run hs

/-- A request is made of the sample session, and it makes the sample moves. -/
def Session.reportedMoves : List Move :=
  .input (.call (.request sampleRequest) false) :: sampleMoves

/-- A request of 17 bytes goes up in two blocks, and its response of 17 bytes comes down in two. -/
theorem two_blocks_each_way_are_reported : ∃ s,
    Session.Published (Session.start Session.sampleOptions {} { next := 0 } { base := 0 })
      Session.reportedMoves s ∧
    s.reports.map (fun p => (p.direction, p.bytes, p.total, p.last)) =
      [(.upload, 16, some 17, false), (.upload, 17, some 17, true), (.download, 16, none, false),
        (.download, 17, some 17, true)] := by
  have hends : ((Session.start Session.sampleOptions {} { next := 0 } { base := 0 }).run
      Session.reportedMoves).map (fun s =>
        s.reports.map fun p => (p.direction, p.bytes, p.total, p.last)) =
      some [(.upload, 16, some 17, false), (.upload, 17, some 17, true),
        (.download, 16, none, false), (.download, 17, some 17, true)] := rfl
  obtain ⟨s, hs, hreports⟩ := Option.map_eq_some_iff.mp hends
  exact ⟨s, reports_exact.1 _ _ _ _ _ _ _ hs, hreports⟩

end Coap

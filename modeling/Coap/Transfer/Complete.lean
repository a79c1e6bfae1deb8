import Coap.Response
import Coap.Transfer.Download
import Coap.Transfer.Upload

/-!
A request with all that belongs to it: a large payload goes up block by block, and a response in blocks is put
together before it is returned.
-/
namespace Coap

structure TransferSettings where
  blockTransfer : Bool
  /-- The size of upload blocks, and of the largest payload that is sent whole. -/
  blockSize : BlockSize
  deriving DecidableEq, Repr

inductive Transfer.Stage
  | whole
  | uploading (upload : Upload)
  | downloading (first : Message) (download : Download)

structure Transfer where
  settings : TransferSettings
  /-- The request by which further blocks of a response are asked for, but for the block. -/
  followUp : Message
  stage : Transfer.Stage

/-- A request without payload and without what describes one, to ask for further blocks of its response. -/
def Message.followUp (m : Message) : Message :=
  (({ m with payload := ByteArray.empty }).removeOptions OptionKind.block1.number).removeOptions
    OptionKind.size1.number

def Message.toResponse (m : Message) : Except ClientError Response :=
  match Response.ofMessage m with
  | .ok r => .ok r
  | .error e => .error (.protocolViolation (.noResponse e))

namespace Transfer

/-- Goes on from the download of what `first` began. -/
def ofDownload (t : Transfer) (first : Message) (s : Stride Download (Except ClientError Assembly)) :
    Stride Transfer (Except ClientError Response) :=
  { reports := s.reports
    turn :=
      match s.turn with
      | .ask request d => .ask request { t with stage := .downloading first d }
      | .finish (.error e) => .finish (.error e)
      | .finish (.ok (.rejected answer)) => .finish answer.toResponse
      | .finish (.ok (.reassembled payload)) =>
        .finish (first.toResponse.map fun r => r.withPayload payload) }

/-- Goes on from the answer to the whole request. -/
def received (t : Transfer) (answer : Message) : Stride Transfer (Except ClientError Response) :=
  if t.settings.blockTransfer && answer.code.isSuccess && answer.block2Value.isSome then
    t.ofDownload answer (Download.start t.followUp answer)
  else { turn := .finish answer.toResponse }

/-- Goes on from an upload's next turn. -/
def ofUpload (t : Transfer) (s : Stride Upload Outcome) :
    Stride Transfer (Except ClientError Response) :=
  match s.turn with
  | .ask request u => { reports := s.reports, turn := .ask request { t with stage := .uploading u } }
  | .finish (.error e) => { reports := s.reports, turn := .finish (.error e) }
  | .finish (.ok answer) =>
    let next := t.received answer
    { next with reports := s.reports ++ next.reports }

def start (settings : TransferSettings) (request followUp : Message) :
    Stride Transfer (Except ClientError Response) :=
  let t : Transfer := { settings, followUp, stage := .whole }
  if settings.blockTransfer && settings.blockSize.bytes < request.payload.size then
    let template := { request with payload := ByteArray.empty }
    t.ofUpload { turn := Upload.start template request.payload settings.blockSize }
  else { turn := .ask request t }

/-- Goes on after the answer to the latest request. -/
def resume (t : Transfer) (answer : Outcome) : Stride Transfer (Except ClientError Response) :=
  match t.stage with
  | .whole =>
    match answer with
    | .ok m => t.received m
    | .error e => { turn := .finish (.error e) }
  | .uploading u => t.ofUpload (u.resume answer)
  | .downloading first d => t.ofDownload first (d.resume answer)

end Transfer

end Coap

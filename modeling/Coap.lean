import Coap.Client.Run
import Coap.ContentFormat
import Coap.Edit
import Coap.Exchange.Desk
import Coap.Uri.Text
import Coap.Proofs.ActivityRun
import Coap.Proofs.BlockValue
import Coap.Proofs.WireInteger
import Coap.Proofs.OptionValues
import Coap.Proofs.MessageValidity
import Coap.Proofs.OptionRoundTrip
import Coap.Proofs.MessageParts
import Coap.Proofs.UploadRequests
import Coap.Proofs.UploadSoundness
import Coap.Proofs.DownloadBlocks
import Coap.Proofs.DownloadSoundness
import Coap.Proofs.ExchangeTable
import Coap.Proofs.DeskActions
import Coap.Proofs.DeskHistory
import Coap.Proofs.DeskOutcomes
import Coap.Proofs.HonestServer
import Coap.Proofs.Conversation
import Coap.Proofs.SessionFrame
import Coap.Proofs.RequestTransparency
import Coap.Proofs.DownloadLength
import Coap.Proofs.SubscriptionTable
import Coap.Proofs.NotificationFreshness
import Coap.Proofs.SessionExchanges
import Coap.Proofs.ExchangeSteps
import Coap.Proofs.ExchangeLedger
import Coap.Proofs.ResponseCorrelation
import Coap.Proofs.ClosingExchanges
import Coap.Proofs.ClosingSubscriptions
import Coap.Proofs.Closing
import Coap.Proofs.UploadReach
import Coap.Proofs.SessionLog
import Coap.Proofs.ExchangeOwners
import Coap.Proofs.ObservationRoles
import Coap.Proofs.SubscriptionMoves
import Coap.Proofs.SubscriptionRoster
import Coap.Proofs.SubscriptionBooks
import Coap.Proofs.TokenGrants
import Coap.Proofs.DeliveryOutcome
import Coap.Proofs.HandlerReactions
import Coap.Proofs.NotificationOrder
import Coap.Proofs.TransferOutcome
import Coap.Proofs.MessageOrigins
import Coap.Proofs.SessionMessages
import Coap.Proofs.SentMessages
import Coap.Proofs.WireLog
import Coap.Proofs.ConfirmableReplies
import Coap.Proofs.RefusedAnswers
import Coap.Proofs.BlockTiling
import Coap.Proofs.SegmentedMessages
import Coap.Proofs.CancelledSteps
import Coap.Proofs.Cancellation
import Coap.Proofs.TokenOwners
import Coap.Proofs.DownloadIntake
import Coap.Proofs.ProgressReports
import Coap.Proofs.MessageIdAllocation
import Coap.Proofs.TransferScripts
import Coap.Proofs.FeedReports
import Coap.Proofs.OperationScripts
import Coap.Proofs.NotificationFetches
import Coap.Proofs.ObservationMessages
import Coap.Proofs.BlockOnWire
import Coap.Proofs.TextCuts
import Coap.Proofs.UriReference
import Coap.Proofs.UriPort
import Coap.Proofs.UriAuthority
import Coap.Proofs.UriText
import Coap.Proofs.UriRoundTrip
import Coap.Proofs.MediaTypes
import Coap.Proofs.UriOptions
import Coap.Proofs.RequestEdits
import Coap.Proofs.OptionRepeats
import Coap.Proofs.BlockArithmetic
import Coap.Proofs.ResponseFields
import Coap.Proofs.PublishedReports
import Coap.Proofs.ClientRuns

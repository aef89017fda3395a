import Proscenium.Lib.Machine
import Proscenium.Crypto.RatchetDefs
import Proscenium.Crypto.RatchetChain
import Proscenium.Crypto.RatchetChannel
import Proscenium.Crypto.RatchetDelivery
import Proscenium.Crypto.RatchetWrap
import Proscenium.Call.CallConsent
import Proscenium.Lib.Json
import Proscenium.Lib.Table
import Proscenium.Server.RegistrationDefs
import Proscenium.Server.RegistrationAuth
import Proscenium.Client.OwnProfile
import Proscenium.Gossip.OwnFeedDefs
import Proscenium.Gossip.OwnFeedVisibility
import Proscenium.DeviceSync.ChallengeAuth
import Proscenium.Dm.SessionDefs
import Proscenium.Dm.SessionHistory
import Proscenium.Dm.FleetHistory
import Proscenium.Dm.KeyReuse
import Proscenium.Dm.LinkedDevices
import Proscenium.Dm.EncryptSafety
import Proscenium.Dm.HandshakeDefs
import Proscenium.Dm.SessionAgreement
import Proscenium.Dm.MailboxDefs
import Proscenium.Dm.DeliveryAcks
import Proscenium.Dm.OutboxCoverage
import Proscenium.Types.Identity
import Proscenium.Client.ContentDefs
import Proscenium.Client.IdentityDefs
import Proscenium.Client.CacheAuthenticity
import Proscenium.Client.KeyMonotonicity
import Proscenium.Client.RotationDefs
import Proscenium.Server.IngestionDefs
import Proscenium.Client.RotationContent
import Proscenium.Lib.Refresh
import Proscenium.Client.SocialDefs
import Proscenium.Client.SocialIsolation
import Proscenium.Client.SyncDefs
import Proscenium.Client.SyncCatchUp
import Proscenium.Client.SyncDeletions
import Proscenium.Server.IncrementalSync
import Proscenium.Server.Watermark
import Proscenium.Lib.Lww
import Proscenium.Lib.Unordered
import Proscenium.DeviceSync.OwnContent
import Proscenium.DeviceSync.LwwConvergence
import Proscenium.Client.ModerationDefs
import Proscenium.DeviceSync.DeltaDefs
import Proscenium.Client.GossipOrder
import Proscenium.Client.DeletionAuthority
import Proscenium.Client.SyncAudience
import Proscenium.Client.PushAudience
import Proscenium.Client.IdentityBinding
import Proscenium.Client.AcceptDefs
import Proscenium.Client.BlockEnforcement
import Proscenium.Client.FollowerDefs
import Proscenium.Client.RotationReach
import Proscenium.Server.VisibilityDefs
import Proscenium.Server.PublicService
import Proscenium.Server.RequestFreshness
import Proscenium.Lib.JsonValue
import Proscenium.Types.Stage
import Proscenium.Types.SigningBytes
import Proscenium.Lib.HashChain
import Proscenium.Stage.AuthDefs
import Proscenium.Stage.AuthCompleteness
import Proscenium.Stage.AuthSoundness
import Proscenium.Stage.LagTamper
import Proscenium.Audio.Transport
import Proscenium.Lib.BigEndian
import Proscenium.Lib.FramedRead
import Proscenium.Stage.RelayFraming
import Proscenium.Lib.CancelToken
import Proscenium.Stage.ActorDefs
import Proscenium.Stage.MicrophoneRole
import Proscenium.Stage.Authority
import Proscenium.Stage.ActorSteps
import Proscenium.Stage.Network
import Proscenium.Stage.Agreement
import Proscenium.Stage.Entries
import Proscenium.Stage.RoleStability
import Proscenium.Stage.BanPermanence
import Proscenium.Lib.Dated
import Proscenium.Stage.ReplayOrder
import Proscenium.Lib.KeyedMixer
import Proscenium.Stage.SpeakerSessions
import Proscenium.Stage.SpeakerStreams
import Proscenium.Call.CallIsolation
import Proscenium.Client.AnnouncementVersions
import Proscenium.Types.AnnouncementCache
import Proscenium.Client.AnnouncementCache
import Proscenium.Server.AnnouncementCache
import Proscenium.Client.RotationFailures
import Proscenium.Lib.Base64
import Proscenium.Link.LinkDefs
import Proscenium.Link.BundleRelease
import Proscenium.Link.FailedLinks
import Proscenium.Link.PskAttempts
import Proscenium.Link.SecondDevice
import Proscenium.Server.GossipTasks
import Proscenium.Client.FeedSubscriptions
import Proscenium.Client.SyncStreaming
import Proscenium.Server.SubscriptionMatch
import Proscenium.Client.ProfileAuthenticity
import Proscenium.Server.ProfileAuthenticity
import Proscenium.Types.SyncSize
import Proscenium.DeviceSync.SizeDefs
import Proscenium.DeviceSync.SizeLimits
import Proscenium.Dm.ConversationDefs
import Proscenium.Dm.UnreadCount
import Proscenium.Stage.Topology
import Proscenium.Dm.ConversationHeads
import Proscenium.Client.Pagination
import Proscenium.Crypto.SkippedKeys
import Proscenium.Dm.IncomingDefs
import Proscenium.Dm.TextCuts
import Proscenium.Dm.OwnConversation
import Proscenium.Crypto.MessageKeys
import Proscenium.Dm.ForgedEnvelopes
import Proscenium.Dm.ReplayProtection
import Proscenium.Crypto.HeaderAuthenticity
import Proscenium.Framing
import Proscenium.Audio.AudioStream
import Proscenium.Audio.Codec
import Proscenium.Stage.RelayHops
import Proscenium.Link.ImportBundle
import Proscenium.Link.BundleTransfer
import Proscenium.Server.TrendingCounts
import Proscenium.Client.NotificationIds
import Proscenium.Client.Reposts
import Proscenium.Frontend.RenderDefs
import Proscenium.Frontend.RenderContent
import Proscenium.Stage.RelaySlots
import Proscenium.Stage.RelayTurns
import Proscenium.Stage.RelayAnnouncements
import Proscenium.DeviceSync.MergeJoin
import Proscenium.Client.Mentions
import Proscenium.Audio.Chunking
import Proscenium.Lib.BoundedFifo
import Proscenium.Stage.MixerFifo
import Proscenium.Lib.SeqNumbers
import Proscenium.Stage.ListenerPlayback
import Proscenium.Dm.ConversationIds
import Proscenium.Lib.LwwHistory
import Proscenium.DeviceSync.FleetDefs
import Proscenium.DeviceSync.FleetStores
import Proscenium.DeviceSync.FleetConvergence
import Proscenium.DeviceSync.FleetSessions
import Proscenium.Client.FollowConsent
import Proscenium.Dm.DeliveredContent
import Proscenium.Lib.Rounds
import Proscenium.Client.RecoveryReach
import Proscenium.Client.PeerSyncSchedule
import Proscenium.Client.FeedReconnects
import Proscenium.Client.ContentAuthenticity
import Proscenium.Client.ServerRegistration
import Proscenium.Call.CallAgreement
import Proscenium.Lib.LastWrite
import Proscenium.Stage.PresenceDetector
import Proscenium.Server.ContentGenuine
import Proscenium.Lib.Replica
import Proscenium.Client.FeedReplica

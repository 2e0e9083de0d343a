import Bib.Audit.Alerts
import Bib.Audit.BatchLogger
import Bib.Audit.RateLimit
import Bib.Audit.RedactConditions
import Bib.Audit.RedactMetadata
import Bib.Audit.RedactText
import Bib.Audit.S3Export
import Bib.Audit.Stream
import Bib.Audit.Tamper
import Bib.Auth.Bootstrap
import Bib.Auth.Challenge
import Bib.Backup.Sqlite
import Bib.Blob.GcRace
import Bib.Blob.IngestFaults
import Bib.Blob.LostUpdate
import Bib.Blob.Reconfigure
import Bib.Blob.Retention
import Bib.Blob.Tiering
import Bib.BreakGlass.Challenges
import Bib.Certs.Revocation
import Bib.Certs.Verifier
import Bib.Cluster.Compaction
import Bib.Cluster.FailedCalls
import Bib.Cluster.HardState
import Bib.Cluster.JoinTokens
import Bib.Cluster.Removal
import Bib.Cluster.Restore
import Bib.Cluster.Transport
import Bib.Domain.Pipeline
import Bib.Domain.Query
import Bib.Domain.Schedule
import Bib.Encryption.Manager
import Bib.Grpc.Server
import Bib.Grpc.SessionAccess
import Bib.P2p.ActiveDownloads
import Bib.P2p.Catalogs
import Bib.P2p.ChunkProtocol
import Bib.P2p.Completion
import Bib.P2p.PubSub
import Bib.Postgres.CredentialStore
import Bib.Postgres.Rotation
import Bib.Shamir.Recovery
import Bib.Shamir.Secrecy
import Bib.Storage.QueryComment
import Bib.Storage.SortField
import Bib.Topics.Invitations
import Bib.Topics.Owners

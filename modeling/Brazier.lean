import Brazier.ProofLib.Runs
import Brazier.ProofLib.Ledger
import Brazier.TLS.TicketKeyStore
import Brazier.TLS.KeyHistory
import Brazier.TLS.TicketLifetime
import Brazier.Text
import Brazier.ProofLib.Placeholders
import Brazier.Database.Session
import Brazier.Database.SQLString
import Brazier.Database.Database
import Brazier.Database.Methods
import Brazier.Database.Substitution
import Brazier.Database.TransactionFlag
import Brazier.Database.CommitTruth
import Brazier.ProofLib.Throwing
import Brazier.Database.Migrations.MigrationManager
import Brazier.Database.Migrations.Atomicity
import Brazier.Database.SQLQueryBuilder
import Brazier.Database.Models.Model
import Brazier.Database.Models.Escaping
import Brazier.Http.Message
import Brazier.Http.Router
import Brazier.Http.Connection
import Brazier.Http.Isolation
import Brazier.ProofLib.Pieces
import Brazier.Http.Framing
import Brazier.ProofLib.Forest
import Brazier.ProofLib.Assign
import Brazier.ProofLib.Json
import Brazier.Config.ConfigManager
import Brazier.Config.DottedKeys
import Brazier.ProofLib.PlainJson
import Brazier.Config.RoundTrip
import Brazier.Config.HashOrder
import Brazier.Config.SaveReload
import Brazier.ProofLib.Regex
import Brazier.ProofLib.RegexLanguage
import Brazier.Http.RoutePath
import Brazier.Http.RouteLanguage
import Brazier.Http.RouteMarks
import Brazier.Http.LiteralSegments
import Brazier.WebSocket.WSRouter
import Brazier.WebSocket.Attachment
import Brazier.WebSocket.Sessions
import Brazier.ProofLib.Slots
import Brazier.WebSocket.Release
import Brazier.WebSocket.Writes
import Brazier.Http.HttpsServer
import Brazier.Http.ConnectionLimit
import Brazier.Http.Draining
import Brazier.Http.Server
import Brazier.Http.StopRequest
import Brazier.Http.Announcement
import Brazier.ProofLib.KeyValue
import Brazier.Database.ConnectionString
import Brazier.Database.Models.SaveMany
import Brazier.Database.Queue
import Brazier.WebSocket.Handlers
import Brazier.WebSocket.Precedence
import Brazier.ProofLib.Lines
import Brazier.Http.Handling
import Brazier.Http.Responses
import Brazier.Http.ConnectionField
import Brazier.TLS.Configuration
import Brazier.TLS.Reload
import Brazier.ProofLib.DotLines
import Brazier.Mail.SmtpClient
import Brazier.ProofLib.BlockChaining
import Brazier.ProofLib.Padding
import Brazier.Cryptography.AES
import Brazier.Cryptography.Tampering
import Brazier.ProofLib.LexicalPath
import Brazier.Filesystem.FileDriver
import Brazier.Filesystem.Confinement
import Brazier.Filesystem.AsyncAgreement
import Brazier.Cryptography.Hash
import Brazier.Cryptography.Verification
import Brazier.WebSocket.ConnectionCount
import Brazier.Http.Dispatch
import Brazier.Database.Models.ModelObject
import Brazier.Database.Models.MassAssignment
import Brazier.Database.Models.Rows
import Brazier.Database.Models.InsertedOnce
import Brazier.Database.Models.Addressing
import Brazier.Database.Script
import Brazier.Database.Migrations.Prefix
import Brazier.Database.Contents
import Brazier.Database.Migrations.Commands
import Brazier.Database.SQLSchemaBuilder
import Brazier.Database.Migrations.FromNothing
import Brazier.ProofLib.Grouped
import Brazier.Database.WhereGroups
import Brazier.ProofLib.Entries
import Brazier.Database.JoinOrder
import Brazier.ProofLib.Pages
import Brazier.Database.Models.ModelQueryBuilder
import Brazier.Database.Models.QuestionMarks
import Brazier.Database.Models.Aggregates
import Brazier.Database.Models.Pages
import Brazier.Database.Models.Collection
import Brazier.Database.Models.BatchInsert
import Brazier.ProofLib.Overwrites
import Brazier.Database.Models.BatchUpdate
import Brazier.Database.Models.EscapeFailure
import Brazier.ProofLib.Reading
import Brazier.Database.StatementText
import Brazier.Config.Subtrees
import Brazier.Config.Getters
import Brazier.Config.ReaderAgreement
import Brazier.Config.SubtreeReads
import Brazier.Config.ReadYourWrites
import Brazier.Config.Bounds
import Brazier.ProofLib.TableJson
import Brazier.Http.Limits
import Brazier.Http.DerivedLimits
import Brazier.ProofLib.Turns
import Brazier.Http.RoundRobin
import Brazier.TLS.GlobalConfig
import Brazier.Cryptography.Messages
import Brazier.Cryptography.Buffers
import Brazier.Cryptography.Hex
import Brazier.Http.Cookie
import Brazier.Http.SetCookie
import Brazier.Mail.Replies
import Brazier.Http.QueryString
import Brazier.Http.UrlParts
import Brazier.Http.HttpClient
import Brazier.Filesystem.StorageManager
import Brazier.Filesystem.ConfiguredDrivers
import Brazier.Filesystem.DefaultDriver
import Brazier.ProofLib.Trimming
import Brazier.Config.Environment
import Brazier.Http.Middleware
import Brazier.Database.CreateTable
import Brazier.WebSocket.Registry
import Brazier.TLS.FreshVectors
import Brazier.WebSocket.SessionId
import Brazier.Database.Cache
import Brazier.ProofLib.ShortWrites
import Brazier.Filesystem.CompleteWrite
import Brazier.ProofLib.Occurrences
import Brazier.Mail.Masking
import Brazier.Mail.Dialogue
import Brazier.ProofLib.Cells
import Brazier.ProofLib.Numerals
import Brazier.WebSocket.FastItoa
import Brazier.Cryptography.OpenSSL
import Brazier.Cryptography.RSA
import Brazier.Cryptography.HandleUse
import Brazier.Debug.Logger
import Brazier.Debug.Retention
import Brazier.Filesystem.Interleaving
import Brazier.Filesystem.Isolation
import Brazier.Http.ResponseStream
import Brazier.Database.NestedWork
import Brazier.Mail.Validator
import Brazier.Config.AutoSave
import Brazier.Database.StatementServer
import Brazier.Database.Models.ObjectStore

import Instinct.Effects
import Instinct.Core
import Instinct.Transitions
import Instinct.Paging
import Instinct.Tables
import Instinct.Decimal
import Instinct.Retrieval
import Instinct.Entities
import Instinct.Store
import Instinct.Listing
import Instinct.RunService
import Instinct.RunServiceSpec
import Instinct.Agent
import Instinct.Calls
import Instinct.Callbacks
import Instinct.Recover
import Instinct.RecoveredTools
import Instinct.Resume
import Instinct.Handler
import Instinct.LocalToolkits
import Instinct.Settle
import Instinct.Setup
import Instinct.Threads
import Instinct.System
import Instinct.ObjectIds
import Instinct.Overrides
import Instinct.ListRuns
import Instinct.VectorStores
import Instinct.ListVectorStores
import Instinct.VectorStoreDeletion
import Instinct.FileBatches
import Instinct.VectorStoreCalls
import Instinct.FileHandler
import Instinct.Pools
import Instinct.CancelledFiles
import Instinct.Provisioning
import Instinct.Files
import Instinct.SearchEntries
import Instinct.Patterns
import Instinct.PlanParser
import Instinct.JoinerParser
import Instinct.TaskGraphs
import Instinct.TaskRounds
import Instinct.Placeholders
import Instinct.Substitutions
import Instinct.PlanRuns
import Instinct.PlanExecutions
import Instinct.PlanAnswers
import Instinct.Splitting
import Instinct.TextSplitters
import Instinct.Packing
import Instinct.PackingWindows
import Instinct.TextMerging
import Instinct.ChunkSizes
import Instinct.ChunkWindows
import Instinct.RecursiveSplitting
import Instinct.Seams
import Instinct.ChunkIndices
import Instinct.SqlConditions
import Instinct.SqlBuilder
import Instinct.DuckDbStore
import Instinct.StoredDocuments
import Instinct.SqlSplices
import Instinct.VectorSearch
import Instinct.MultiPathRetriever
import Instinct.SummaryRounds
import Instinct.Citations
import Instinct.ProtoJson
import Instinct.JsonMessages
import Instinct.TaskScheduler
import Instinct.ConnectionPool
import Instinct.StreamChunks
import Instinct.FileTree
import Instinct.ObjectPaths
import Instinct.RequiredActions
import Instinct.BatchCancellation
import Instinct.NewThreads
import Instinct.JsonStructs
import Instinct.StructConversion
import Instinct.MessageRows
import Instinct.MessagesReadBack
import Instinct.AssistantTools
import Instinct.AssistantRows
import Instinct.AssistantCreation
import Instinct.SparseTools
import Instinct.AssistantUpdates
import Instinct.PairMerging
import Instinct.Alternatives
import Instinct.OrderedMaps
import Instinct.Tokenizer
import Instinct.TokenizerSpec
import Instinct.TokenizerRoundTrip
import Instinct.Tiktoken
import Instinct.TiktokenMerges
import Instinct.TiktokenRoundTrip
import Instinct.ExampleSelection
import Instinct.PageText
import Instinct.TrainingRounds
import Instinct.EncodeOptions
import Instinct.LongestPaths
import Instinct.UnigramTokenizer
import Instinct.StringUtils
import Instinct.DocumentValidation
import Instinct.ParquetMapping
import Instinct.FileVault
import Instinct.Uris
import Instinct.HttpRequests
import Instinct.SortedMaps
import Instinct.JsonContexts
import Instinct.EventPayloads
import Instinct.Cells
import Instinct.StepFunctions
import Instinct.Chains
import Instinct.ReactReplies
import Instinct.ReactAgent
import Instinct.RankFiles
import Instinct.Layouts
import Instinct.VocabFiles
import Instinct.ModelFiles
import Instinct.PrintedModels
import Instinct.TextProcessors
import Instinct.DocumentRuns
import Instinct.SplitDeletions

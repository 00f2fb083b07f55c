import K2Platform.Agreement.BookRefinement
import K2Platform.Agreement.Coinbase
import K2Platform.Agreement.DecimalText
import K2Platform.Agreement.Held
import K2Platform.Agreement.Kraken
import K2Platform.Agreement.RoundTrip
import K2Platform.Capture.Adapter
import K2Platform.Capture.Binance.Adapter
import K2Platform.Capture.Binance.Sequence
import K2Platform.Capture.Book
import K2Platform.Capture.BookAssertions
import K2Platform.Capture.Coinbase.Adapter
import K2Platform.Capture.Coinbase.Lossy
import K2Platform.Capture.Coinbase.Refinement
import K2Platform.Capture.Config
import K2Platform.Capture.Decimal
import K2Platform.Capture.Kraken.Adapter
import K2Platform.Capture.Kraken.Apply
import K2Platform.Capture.Kraken.Handed
import K2Platform.Capture.Kraken.Mismatch
import K2Platform.Capture.Kraken.Parking
import K2Platform.Capture.Kraken.Resync
import K2Platform.Capture.Kraken.Verified
import K2Platform.Capture.Kraken.Waiting
import K2Platform.Capture.Lineage
import K2Platform.Capture.RawRecords
import K2Platform.Capture.Record
import K2Platform.Capture.Replay
import K2Platform.Capture.ReplayClock
import K2Platform.Capture.ResyncOnDrain
import K2Platform.Capture.SampleGrid
import K2Platform.Capture.Session
import K2Platform.Capture.SnapshotDepth
import K2Platform.Capture.Watchdog
import K2Platform.Lake.AcceptedLoss
import K2Platform.Lake.ArchivedRecords
import K2Platform.Lake.BarEngines
import K2Platform.Lake.BarReference
import K2Platform.Lake.Bars
import K2Platform.Lake.Bbo
import K2Platform.Lake.BinanceTicks
import K2Platform.Lake.Book
import K2Platform.Lake.BookCrash
import K2Platform.Lake.BookDict
import K2Platform.Lake.BookLedger
import K2Platform.Lake.BookRebuild
import K2Platform.Lake.BookSamples
import K2Platform.Lake.BookStage
import K2Platform.Lake.Books
import K2Platform.Lake.BoundedDrain
import K2Platform.Lake.Broker
import K2Platform.Lake.BronzeDecode
import K2Platform.Lake.BronzeRebuild
import K2Platform.Lake.Candles
import K2Platform.Lake.Cast
import K2Platform.Lake.CoinbaseExplode
import K2Platform.Lake.ContinuityAudit
import K2Platform.Lake.CopiedTables
import K2Platform.Lake.DdlStatements
import K2Platform.Lake.DecodeAccounts
import K2Platform.Lake.Dimensions
import K2Platform.Lake.Duplicates
import K2Platform.Lake.ExactlyOnce
import K2Platform.Lake.Expiry
import K2Platform.Lake.FrameOrder
import K2Platform.Lake.GoldCrash
import K2Platform.Lake.GoldPrices
import K2Platform.Lake.GoldRebuild
import K2Platform.Lake.GoldSamples
import K2Platform.Lake.GoldStage
import K2Platform.Lake.GoldTrades
import K2Platform.Lake.HeldBook
import K2Platform.Lake.HoleCoverage
import K2Platform.Lake.IncrementalReads
import K2Platform.Lake.Ingest
import K2Platform.Lake.Instruments
import K2Platform.Lake.KafkaToGold
import K2Platform.Lake.LiveCandles
import K2Platform.Lake.LookAhead
import K2Platform.Lake.Offsets
import K2Platform.Lake.OneVenueRebuild
import K2Platform.Lake.PulledBars
import K2Platform.Lake.RebuildOrder
import K2Platform.Lake.RebuiltVerdicts
import K2Platform.Lake.RecomputeAudits
import K2Platform.Lake.RecordedPositions
import K2Platform.Lake.Replay
import K2Platform.Lake.ReplayCuts
import K2Platform.Lake.ReplayWalk
import K2Platform.Lake.SampleSpec
import K2Platform.Lake.Scd2
import K2Platform.Lake.Scd2Runs
import K2Platform.Lake.Scd2Tiling
import K2Platform.Lake.SecurityMaster
import K2Platform.Lake.Silver
import K2Platform.Lake.SilverBatches
import K2Platform.Lake.SilverRebuild
import K2Platform.Lake.SilverStage
import K2Platform.Lake.SilverTyping
import K2Platform.Lake.Snapshots
import K2Platform.Lake.TradeOnce
import K2Platform.Lake.TradePipeline
import K2Platform.Lake.VenueLedger
import K2Platform.Lake.Verdicts
import K2Platform.Lake.Wire
import K2Platform.Lake.WriterLock
import K2Platform.Lib.AsOfJoin
import K2Platform.Lib.AssertedLoop
import K2Platform.Lib.Backlog
import K2Platform.Lib.BigEndian
import K2Platform.Lib.Changelog
import K2Platform.Lib.Coverage
import K2Platform.Lib.Crc32
import K2Platform.Lib.Dict
import K2Platform.Lib.Digits
import K2Platform.Lib.Display
import K2Platform.Lib.Drain
import K2Platform.Lib.EvictingLog
import K2Platform.Lib.FirstLeast
import K2Platform.Lib.FirstWins
import K2Platform.Lib.FlatIndex
import K2Platform.Lib.Forall2
import K2Platform.Lib.Grid
import K2Platform.Lib.Grouped
import K2Platform.Lib.Mealy
import K2Platform.Lib.PartialMap
import K2Platform.Lib.PartitionedLog
import K2Platform.Lib.Patch
import K2Platform.Lib.Predecessor
import K2Platform.Lib.QuotedSplit
import K2Platform.Lib.RankedMap
import K2Platform.Lib.RecomputedView
import K2Platform.Lib.ReplacingMergeTree
import K2Platform.Lib.RowDiff
import K2Platform.Lib.Sampler
import K2Platform.Lib.Scan
import K2Platform.Lib.Slices
import K2Platform.Lib.SortOn
import K2Platform.Lib.SortedMap
import K2Platform.Lib.ThreeValued
import K2Platform.Lib.Ticks
import K2Platform.Lib.Timeline
import K2Platform.Lib.Trace
import K2Platform.Lib.Word
import K2Platform.Lib.WriteLock
import K2Platform.Parity.CompareTrades

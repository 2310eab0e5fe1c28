import BitcoinAnalysis.Agreement
import BitcoinAnalysis.Conservation
import BitcoinAnalysis.Integrity
import BitcoinAnalysis.Aggregates
import BitcoinAnalysis.Resume
import BitcoinAnalysis.Heads
import BitcoinAnalysis.Numbering
import BitcoinAnalysis.BlockSequence
import BitcoinAnalysis.LastSaved
import BitcoinAnalysis.Termination
import BitcoinAnalysis.Readers
import BitcoinAnalysis.Payload
import BitcoinAnalysis.PublicKeys
import BitcoinAnalysis.AddressBuffer
import BitcoinAnalysis.Reward
import BitcoinAnalysis.CoinbaseMarker
import BitcoinAnalysis.Lifetimes
import BitcoinAnalysis.Calendar
import BitcoinAnalysis.TimeRange
import BitcoinAnalysis.Console
import BitcoinAnalysis.VarLen
import BitcoinAnalysis.Streaming
import BitcoinAnalysis.AddressText
import BitcoinAnalysis.RipemdStandard
import BitcoinAnalysis.Distributions
import BitcoinAnalysis.SqlSyntax
import BitcoinAnalysis.SqlSemantics
import BitcoinAnalysis.QueryTexts
import BitcoinAnalysis.QueryParsing
import BitcoinAnalysis.QueryRefinement
import BitcoinAnalysis.Statistical
import BitcoinAnalysis.StatisticalParsing
import BitcoinAnalysis.StatisticalSections
import BitcoinAnalysis.StatisticalDistributions
import BitcoinAnalysis.StatisticalReports
import BitcoinAnalysis.Reruns
import BitcoinAnalysis.RowGroups
import BitcoinAnalysis.MonthlyReports

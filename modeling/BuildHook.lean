import BuildHook.CommandLine
import BuildHook.Main
import BuildHook.Proofs.Licence
import BuildHook.Proofs.Reading
import BuildHook.Shell.Script
import BuildHook.Proofs.Signalling
import BuildHook.Proofs.Stages
import BuildHook.Proofs.Pipeline
import BuildHook.Proofs.WatchedReads
import BuildHook.Proofs.Commands
import BuildHook.Proofs.StageOrder
import BuildHook.Proofs.SignalLog
import BuildHook.Proofs.Walk
import BuildHook.Proofs.Defaults
import BuildHook.Proofs.Invalidation
import BuildHook.Proofs.Merging
import BuildHook.Proofs.Listing
import BuildHook.Proofs.Aggregation
import BuildHook.Proofs.Escapes
import BuildHook.Proofs.Negotiation
import BuildHook.Proofs.Protocol
import BuildHook.Proofs.Repeats
import BuildHook.Proofs.Places
import BuildHook.Proofs.Storing
import BuildHook.Proofs.Integrity
import BuildHook.Proofs.Environment
import BuildHook.Proofs.Independence
import BuildHook.Proofs.SourceNames
import BuildHook.Proofs.Decimal.ReadBack
import BuildHook.Proofs.Encoding
import BuildHook.Proofs.MergedSettings
import BuildHook.Proofs.Requests
import BuildHook.Proofs.Retries
import BuildHook.Proofs.Fetching
import BuildHook.Proofs.ImageOutput
import BuildHook.Proofs.ShellWords
import BuildHook.Proofs.LinkWalks
import BuildHook.Proofs.RealPaths
import BuildHook.Proofs.BundledArchive
import BuildHook.Proofs.FeatureWords
import BuildHook.Proofs.ManifestLayout
import BuildHook.Proofs.Confinement
import BuildHook.Proofs.SpecTags
import BuildHook.Proofs.Crawling
import BuildHook.Proofs.ManifestSurroundings
import BuildHook.Proofs.MergeLaws
import BuildHook.Proofs.ListingOrder
import BuildHook.Proofs.SpecReferences
import BuildHook.Proofs.CacheAddresses

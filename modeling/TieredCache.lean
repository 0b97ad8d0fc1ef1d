import TieredCache.Calls
import TieredCache.Crowd
import TieredCache.Disk.Edit
import TieredCache.Lookup.Run
import TieredCache.Mishap
import TieredCache.Overlap
import TieredCache.Proofs.Archive.Agreement
import TieredCache.Proofs.Archive.Crash
import TieredCache.Proofs.Archive.Foreign
import TieredCache.Proofs.Archive.Healing
import TieredCache.Proofs.Archive.Mishaps
import TieredCache.Proofs.Archive.Operations
import TieredCache.Proofs.Archive.Orphans
import TieredCache.Proofs.Archive.Reach
import TieredCache.Proofs.Archive.Rebuilding
import TieredCache.Proofs.Archive.Reopening
import TieredCache.Proofs.Archive.Removals
import TieredCache.Proofs.Archive.Repair
import TieredCache.Proofs.Archive.Saving
import TieredCache.Proofs.Archive.Sources
import TieredCache.Proofs.Archive.Sweeping
import TieredCache.Proofs.Archive.Tidy
import TieredCache.Proofs.Archive.Upkeep
import TieredCache.Proofs.Calls.Catalogue
import TieredCache.Proofs.Calls.Counts
import TieredCache.Proofs.Calls.Residency
import TieredCache.Proofs.Calls.Superseded
import TieredCache.Proofs.Calls.Transparency
import TieredCache.Proofs.Crowd.Endings
import TieredCache.Proofs.Crowd.Hydrations
import TieredCache.Proofs.Crowd.Scene
import TieredCache.Proofs.Crowd.SingleFlight
import TieredCache.Proofs.Crowd.Uses
import TieredCache.Proofs.Disk.Folders
import TieredCache.Proofs.Disk.Listings
import TieredCache.Proofs.Disk.Reach
import TieredCache.Proofs.Entry.Keys
import TieredCache.Proofs.Entry.Limit
import TieredCache.Proofs.Entry.Origins
import TieredCache.Proofs.Entry.Records
import TieredCache.Proofs.Entry.Skimming
import TieredCache.Proofs.Hydration
import TieredCache.Proofs.IndexFile
import TieredCache.Proofs.Json.Outlines
import TieredCache.Proofs.Json.Reading
import TieredCache.Proofs.Json.RoundTrip
import TieredCache.Proofs.Json.Skipping
import TieredCache.Proofs.Json.Spelling
import TieredCache.Proofs.Json.Tokens
import TieredCache.Proofs.Json.Written
import TieredCache.Proofs.Lookup.Abreast
import TieredCache.Proofs.Lookup.Amid
import TieredCache.Proofs.Lookup.Endings
import TieredCache.Proofs.Lookup.Front
import TieredCache.Proofs.Lookup.Kinds
import TieredCache.Proofs.Lookup.LastPut
import TieredCache.Proofs.Lookup.LastRemoval
import TieredCache.Proofs.Lookup.Local
import TieredCache.Proofs.Lookup.Origins
import TieredCache.Proofs.Lookup.Overlapped
import TieredCache.Proofs.Lookup.Passes
import TieredCache.Proofs.Lookup.Sequential
import TieredCache.Proofs.Recent.Accounts
import TieredCache.Proofs.Recent.Clocks
import TieredCache.Proofs.Recent.Hydrations
import TieredCache.Proofs.Recent.Order
import TieredCache.Proofs.Recent.Stamps
import TieredCache.Proofs.Recent.Uses
import TieredCache.Proofs.Service.Endings
import TieredCache.Proofs.Service.Files
import TieredCache.Proofs.Service.Origins
import TieredCache.Proofs.Settings.Environment
import TieredCache.Proofs.Store.Independence
import TieredCache.Proofs.Store.Operations
import TieredCache.Proofs.Store.Removals
import TieredCache.Proofs.Store.Share
import TieredCache.Service
import TieredCache.Settings.Environment
import TieredCache.Traffic

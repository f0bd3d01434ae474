import AlbumIndex.Load.Crew
import AlbumIndex.Main
import AlbumIndex.Proofs.Cursor.Bounds
import AlbumIndex.Proofs.Cursor.Meaning
import AlbumIndex.Proofs.Catalog.Numbering
import AlbumIndex.Proofs.Catalog.Postings
import AlbumIndex.Proofs.Calendar.Civil
import AlbumIndex.Proofs.Calendar.Reading
import AlbumIndex.Proofs.Query.Period
import AlbumIndex.Proofs.Catalog.Identity
import AlbumIndex.Proofs.Catalog.Lookup
import AlbumIndex.Proofs.Outcomes
import AlbumIndex.Proofs.Query.Nodes
import AlbumIndex.Proofs.Text.LetterCase
import AlbumIndex.Proofs.Query.Draining
import AlbumIndex.Proofs.Query.Language
import AlbumIndex.Proofs.Query.Partition
import AlbumIndex.Proofs.Query.Tokens
import AlbumIndex.Proofs.Query.Quoted
import AlbumIndex.Proofs.Catalog.People
import AlbumIndex.Proofs.Query.People
import AlbumIndex.Proofs.Query.Trees
import AlbumIndex.Proofs.Snapshot.Format
import AlbumIndex.Proofs.Snapshot.Refresh
import AlbumIndex.Proofs.Sorting
import AlbumIndex.Proofs.Snapshot.Listing
import AlbumIndex.Proofs.Disk.Names
import AlbumIndex.Proofs.Disk.Tree
import AlbumIndex.Proofs.Disk.Confinement
import AlbumIndex.Proofs.Load.Stops
import AlbumIndex.Proofs.Catalog.Album
import AlbumIndex.Proofs.Load.Turns
import AlbumIndex.Proofs.Load.Beside
import AlbumIndex.Proofs.Load.Coverage
import AlbumIndex.Proofs.Disk.Following
import AlbumIndex.Proofs.Disk.Mirror
import AlbumIndex.Proofs.Load.Again
import AlbumIndex.Proofs.Disk.Places
import AlbumIndex.Proofs.Disk.Work
import AlbumIndex.Proofs.Disk.Making
import AlbumIndex.Proofs.Disk.Filling
import AlbumIndex.Proofs.Load.Schedules
import AlbumIndex.Proofs.Load.Shared
import AlbumIndex.Proofs.Load.Persistence
import AlbumIndex.Proofs.Cursor.Pulls
import AlbumIndex.Proofs.Cursor.Unordered
import AlbumIndex.Proofs.Cursor.Stopping
import AlbumIndex.Proofs.Query.Stopping
import AlbumIndex.Proofs.Load.Sight
import AlbumIndex.Proofs.Load.Staleness
import AlbumIndex.Proofs.Load.Forced
import AlbumIndex.Proofs.Library.Sessions
import AlbumIndex.Proofs.Disk.Damage
import AlbumIndex.Proofs.Load.Damage
import AlbumIndex.Proofs.Text.ByteOrder
import AlbumIndex.Proofs.Catalog.Keywords
import AlbumIndex.Proofs.Query.Lookups
import AlbumIndex.Proofs.Query.Words
import AlbumIndex.Proofs.Query.Expansion
import AlbumIndex.Proofs.Catalog.Pinning
import AlbumIndex.Proofs.Calendar.Months
import AlbumIndex.Proofs.Catalog.Recent
import AlbumIndex.Proofs.Catalog.RecentImages
import AlbumIndex.Proofs.Query.Albums
import AlbumIndex.Proofs.Text.Folding
import AlbumIndex.Proofs.Text.Pieces
import AlbumIndex.Proofs.Catalog.Runaway
import AlbumIndex.Proofs.Catalog.DatedNames
import AlbumIndex.Proofs.Query.Midnights
import AlbumIndex.Proofs.Catalog.SubKeywords

import CommitStore.Command.Spelling
import CommitStore.Main
import CommitStore.Proofs.Host.Making
import CommitStore.Proofs.Store.Winner
import CommitStore.Proofs.State.ReadBack
import CommitStore.Proofs.Host.Absolute
import CommitStore.Proofs.State.SlotFile
import CommitStore.Proofs.Log.Site
import CommitStore.Proofs.Log.Places
import CommitStore.Proofs.Log.Committers
import CommitStore.Proofs.Log.Agreement
import CommitStore.Proofs.Store.Contents
import CommitStore.Proofs.Store.Reachable
import CommitStore.Proofs.Store.MemoryEntries
import CommitStore.Proofs.Store.Mirror
import CommitStore.Proofs.Host.Walk
import CommitStore.Proofs.Store.Listing
import CommitStore.Proofs.Store.MemoryListing
import CommitStore.Proofs.Store.DiskListing
import CommitStore.Proofs.Host.Ways
import CommitStore.Proofs.Store.DiskEntries
import CommitStore.Proofs.Store.MissingDirectory
import CommitStore.Proofs.Store.Strategies
import CommitStore.Proofs.Store.Simulation
import CommitStore.Proofs.Host.Limits
import CommitStore.Proofs.Host.Files
import CommitStore.Proofs.Store.DiskReachable
import CommitStore.Proofs.Store.BelowObject
import CommitStore.Proofs.Store.Reading
import CommitStore.Proofs.Store.Containment
import CommitStore.Proofs.Store.Conservation
import CommitStore.Proofs.Store.StoredObjects
import CommitStore.Proofs.Store.Refusal
import CommitStore.Proofs.Host.Grown
import CommitStore.Proofs.Store.NewDirectories
import CommitStore.Proofs.Store.FailedPut
import CommitStore.Proofs.State.OneSlot
import CommitStore.Proofs.Text.Digits
import CommitStore.Proofs.Json.Grammar
import CommitStore.Proofs.Json.Record
import CommitStore.Proofs.Json.Printing
import CommitStore.Proofs.Time.Calendar
import CommitStore.Proofs.Time.Spelling
import CommitStore.Proofs.Time.Acceptance
import CommitStore.Proofs.Time.Writing
import CommitStore.Proofs.Store.Description
import CommitStore.Proofs.Location.Algebra
import CommitStore.Proofs.Host.Written
import CommitStore.Proofs.State.FailedPut
import CommitStore.Proofs.Store.PutEffect
import CommitStore.Proofs.Json.Soundness
import CommitStore.Proofs.State.Classification
import CommitStore.Proofs.Text.Order
import CommitStore.Proofs.Command.Lines
import CommitStore.Proofs.Command.Tree
import CommitStore.Proofs.Command.JsonListing
import CommitStore.Proofs.Command.Arguments
import CommitStore.Proofs.Command.Reading
import CommitStore.Proofs.Command.Acceptance
import CommitStore.Proofs.Command.Spelling
import CommitStore.Proofs.Command.Independence
import CommitStore.Proofs.Command.Placement
import CommitStore.Proofs.Store.PrefixScan
import CommitStore.Proofs.Store.CanonicalKeys
import CommitStore.Proofs.Command.Colour
import CommitStore.Proofs.Json.MemberOrder
import CommitStore.Proofs.Config.Content
import CommitStore.Proofs.Config.Backend

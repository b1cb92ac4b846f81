import ItemStore.Memory.Host
import ItemStore.Store.Basic
import ItemStore.Failure.Arguments
import ItemStore.Settings.Assignment
import ItemStore.Proofs.Template.Alike
import ItemStore.Proofs.Template.Substitution
import ItemStore.Proofs.Template.Collapse
import ItemStore.Proofs.Template.Agreement
import ItemStore.Proofs.Template.Request
import ItemStore.Proofs.Batch.Course
import ItemStore.Proofs.Batch.Grouping
import ItemStore.Proofs.Batch.Residue
import ItemStore.Proofs.Batch.Accounting
import ItemStore.Proofs.Batch.Disclosure
import ItemStore.Proofs.Batch.Entries
import ItemStore.Proofs.Batch.Meaning
import ItemStore.Proofs.Batch.Ordering
import ItemStore.Proofs.Batch.Service
import ItemStore.Proofs.Batch.Keys
import ItemStore.Proofs.Batch.Transparency
import ItemStore.Proofs.Number.Readback
import ItemStore.Proofs.Wire.Storable
import ItemStore.Proofs.Wire.RoundTrip
import ItemStore.Proofs.Paging.Chain
import ItemStore.Proofs.Paging.Fold
import ItemStore.Proofs.Paging.Visit
import ItemStore.Proofs.Backend.Keeps
import ItemStore.Proofs.Wire.Attribute
import ItemStore.Proofs.Value.Document
import ItemStore.Proofs.Backend.Contract
import ItemStore.Proofs.Batch.Sound
import ItemStore.Proofs.Template.Renderable
import ItemStore.Proofs.Batch.SoundWrite
import ItemStore.Proofs.Batch.SoundGet
import ItemStore.Proofs.Backend.Scripted
import ItemStore.Proofs.Paging.Sound
import ItemStore.Proofs.Store.Handled
import ItemStore.Proofs.Wire.Refused
import ItemStore.Proofs.Failure.Refusal
import ItemStore.Proofs.Backend.Ledger
import ItemStore.Proofs.Batch.Refusal
import ItemStore.Proofs.Paging.Refusal
import ItemStore.Proofs.Store.Refusal
import ItemStore.Proofs.Store.Styles
import ItemStore.Proofs.Store.Loading
import ItemStore.Proofs.Number.Precision
import ItemStore.Proofs.Number.Numerals
import ItemStore.Proofs.Wire.Tree
import ItemStore.Proofs.Wire.Reread
import ItemStore.Proofs.Store.Resubmission
import ItemStore.Proofs.Batch.Pool
import ItemStore.Proofs.Batch.Applied
import ItemStore.Proofs.Batch.Scheduling
import ItemStore.Proofs.Wire.Copied
import ItemStore.Proofs.Batch.Accepted
import ItemStore.Proofs.Store.KeyValue
import ItemStore.Proofs.Store.ItemCalls
import ItemStore.Proofs.Store.KeyAddressed
import ItemStore.Proofs.Store.Refinement
import ItemStore.Proofs.Backend.Surfacing
import ItemStore.Proofs.Batch.Journal
import ItemStore.Proofs.Batch.Retrial
import ItemStore.Proofs.Number.Doubling
import ItemStore.Proofs.Settings.Admitted
import ItemStore.Proofs.Settings.History
import ItemStore.Proofs.Batch.Backoff
import ItemStore.Proofs.Batch.Recognition
import ItemStore.Proofs.Batch.Conservation
import ItemStore.Proofs.Batch.Tries
import ItemStore.Proofs.Batch.Calls
import ItemStore.Proofs.Batch.Carried
import ItemStore.Proofs.Template.Resolution
import ItemStore.Proofs.Template.Missing
import ItemStore.Proofs.Template.Policies
import ItemStore.Proofs.Batch.Multiplicity
import ItemStore.Proofs.Template.Pattern
import ItemStore.Proofs.Template.Tokenizing
import ItemStore.Proofs.Wire.Lapses
import ItemStore.Proofs.Batch.Places
import ItemStore.Proofs.Batch.Unmoved
import ItemStore.Proofs.Paging.Records
import ItemStore.Proofs.Store.Counting
import ItemStore.Proofs.Batch.Limit

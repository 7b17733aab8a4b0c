import FileTransfer.Guarantees.AllOrNothing
import FileTransfer.Guarantees.Cleanup
import FileTransfer.Guarantees.CommandLines
import FileTransfer.Guarantees.Confinement
import FileTransfer.Guarantees.DatabaseFiles
import FileTransfer.Guarantees.DatabaseGrammar
import FileTransfer.Guarantees.Deletion
import FileTransfer.Guarantees.Endings
import FileTransfer.Guarantees.FailedLogins
import FileTransfer.Guarantees.FileTurns
import FileTransfer.Guarantees.FreshSessions
import FileTransfer.Guarantees.HashComparisons
import FileTransfer.Guarantees.HexDecoding
import FileTransfer.Guarantees.ListingBuffer
import FileTransfer.Guarantees.NumericOptions
import FileTransfer.Guarantees.PathAssembly
import FileTransfer.Guarantees.SerialOrder
import FileTransfer.Guarantees.SharedFiles
import FileTransfer.Guarantees.Shells
import FileTransfer.Guarantees.Sizing
import FileTransfer.Guarantees.StartUp

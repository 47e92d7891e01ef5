import Guix.Build.GraftCorrectness
import Guix.Build.UnionCorrectness
import Guix.Client.Base32Correctness
import Guix.Client.BuildsCorrectness
import Guix.Client.Connection
import Guix.Client.DerivationCorrectness
import Guix.Client.Exports
import Guix.Client.FileMapping
import Guix.Client.GexpCorrectness
import Guix.Client.GitAuthenticateCorrectness
import Guix.Client.GraftsCompleteness
import Guix.Client.HttpClient
import Guix.Client.PackageMapping
import Guix.Client.RestoreFile
import Guix.Client.Status
import Guix.LibStore.DerivationGoalCorrectness
import Guix.LibStore.DrvPathWithOutputs
import Guix.LibStore.GcCompleteness
import Guix.LibStore.GcHistory
import Guix.LibStore.PathLocksCorrectness
import Guix.LibStore.ReferencesCorrectness
import Guix.LibStore.SubstituterOutput
import Guix.LibStore.TempRootsCorrectness
import Guix.LibStore.VerifyCorrectness
import Guix.LibUtil.ArchiveRoundTrip
import Guix.LibUtil.Buffered
import Guix.LibUtil.CanonPathCorrectness
import Guix.Scripts.AuthenticateSession
import Guix.Scripts.Challenge
import Guix.Scripts.PublishCorrectness
import Guix.System.IdAllocation
import Guix.System.ServicesCorrectness

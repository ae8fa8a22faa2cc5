import Nek0.Audio.OutputStream
import Nek0.Audio.Playback
import Nek0.Audio.Reception
import Nek0.Audio.Sending
import Nek0.Audio.Volumes
import Nek0.Dart.FolderDiscovery
import Nek0.Dart.FolderUpload
import Nek0.Dart.FtCalls
import Nek0.Dart.TreeDeletion
import Nek0.Lib.JsonLists
import Nek0.Lib.Loop
import Nek0.Lib.Precedence
import Nek0.Lib.Requests
import Nek0.Native.Machine
import Nek0.Proofs.Android.CaptureThreads
import Nek0.Proofs.Audio.ClosingSounds
import Nek0.Proofs.Audio.FrameBuffers
import Nek0.Proofs.Audio.InOrderStream
import Nek0.Proofs.Audio.MixOutput
import Nek0.Proofs.Audio.MovementSounds
import Nek0.Proofs.Audio.PlaybackGain
import Nek0.Proofs.Audio.Rehoming
import Nek0.Proofs.Audio.Reordering
import Nek0.Proofs.Audio.RestartRequests
import Nek0.Proofs.Audio.SanityWindow
import Nek0.Proofs.Audio.SoundEffects
import Nek0.Proofs.Audio.VoiceBlocks
import Nek0.Proofs.Audio.WavFiles
import Nek0.Proofs.Audio.WavSafety
import Nek0.Proofs.Dart.Agreement
import Nek0.Proofs.Dart.AvatarTries
import Nek0.Proofs.Dart.AwayRestore
import Nek0.Proofs.Dart.BoundedWalks
import Nek0.Proofs.Dart.ConnectAddress
import Nek0.Proofs.Dart.Containment
import Nek0.Proofs.Dart.DeletedTrees
import Nek0.Proofs.Dart.FolderBytes
import Nek0.Proofs.Dart.FolderRows
import Nek0.Proofs.Dart.FolderSteps
import Nek0.Proofs.Dart.Microphone
import Nek0.Proofs.Dart.PassedPaths
import Nek0.Proofs.Dart.RowIds
import Nek0.Proofs.Dart.SavedServers
import Nek0.Proofs.Dart.SearchHits
import Nek0.Proofs.Dart.ShownEntries
import Nek0.Proofs.Dart.ShownTransfers
import Nek0.Proofs.Dart.SiblingOrder
import Nek0.Proofs.Dart.TreeRows
import Nek0.Proofs.Dart.UploadDirectories
import Nek0.Proofs.Dart.UploadTargets
import Nek0.Proofs.Dart.VoiceGating
import Nek0.Proofs.Dart.WaitOutcomes
import Nek0.Proofs.Dart.Waiters
import Nek0.Proofs.Native.CanonicalPaths
import Nek0.Proofs.Native.CleanEnd
import Nek0.Proofs.Native.ClientIds
import Nek0.Proofs.Native.ConnectionLoss
import Nek0.Proofs.Native.DownloadOutcomes
import Nek0.Proofs.Native.Isolation
import Nek0.Proofs.Native.MoveRejections
import Nek0.Proofs.Native.MultiDelete
import Nek0.Proofs.Native.OwnMoves
import Nek0.Proofs.Native.StaleRequests
import Nek0.Proofs.Native.StreamOrder
import Nek0.Proofs.Native.TransferEnds
import Nek0.Proofs.Native.UserDisconnect
import Nek0.Proofs.Protocol.Acknowledgements
import Nek0.Proofs.Protocol.CommandTexts
import Nek0.Proofs.Protocol.Fragments
import Nek0.Proofs.Protocol.InitPackets
import Nek0.Proofs.Protocol.ResendWindow
import Nek0.Protocol.CommandLink
import Nek0.Protocol.Init

import Ghostframe.Fec.Recovery
import Ghostframe.Client.Lossless
import Ghostframe.Client.H264RoundTrip
import Ghostframe.Transport.ParityTruth
import Ghostframe.Client.SeqShift
import Ghostframe.Transport.LabelHistory
import Ghostframe.Transport.AckCredit
import Ghostframe.Transport.Recheck
import Ghostframe.Capture.HintedAnalysis
import Ghostframe.Gpu.PublishExact
import Ghostframe.X11.GrabExact
import Ghostframe.Transport.RoundRobin
import Ghostframe.Transport.DetectComplete
import Ghostframe.Transport.RepairOnce
import Ghostframe.Client.FeedbackWriter
import Ghostframe.Feedback.Dispatched
import Ghostframe.Transport.InFlightTally
import Ghostframe.Transport.PacketThreshold
import Ghostframe.Client.AckBatching
import Ghostframe.Transport.Admission
import Ghostframe.Transport.CertSchedule
import Ghostframe.Client.EventQueue
import Ghostframe.Transport.Timeline
